/-
# Reading lines

`my_read`, `readline` and `readlinebuf` of `basic_lib/readline.c`.  `my_read` hands out single
bytes from a buffer that it fills with `read`, and `readline` puts them together.  The buffer,
`read_cnt` and `read_ptr` are static, so that they survive the call of `readline`.

What there is to be read is a list of arrivals.  A call of `read` takes the first one, or as much
of it as fits into the buffer.  How the bytes are distributed over the arrivals, and how often
`read` is interrupted, cannot be seen by a caller of `readline`: the buffer and the arrivals
together are a plain list of bytes, ends of file and errors, from which `my_read` takes the first
element, `myRead_refines`.  So every sequence of calls returns what it would on that list:
`calls_eq`.
-/
import CppExample.Lib.Lines

namespace CppExample.BasicLib

/-- `MAXLINE`. -/
def maxline : ℕ := 4096

/-- `'\n'`. -/
def newline : UInt8 := 10

/-- What a call of `read` finds at a descriptor.  If it finds nothing, then it blocks. -/
inductive Arrival where
  /-- Data, at least one byte. -/
  | bytes (b : UInt8) (bs : List UInt8)
  | eof
  /-- The call is interrupted by a signal, `EINTR`. -/
  | eintr
  /-- Another error. -/
  | error
deriving DecidableEq, Repr

/-- Data that is not read stays where it is. -/
def putBack : List UInt8 → List Arrival → List Arrival
  | [], l => l
  | b :: bs, l => .bytes b bs :: l

/-- The static variables.  `readPtr` is the distance of `read_ptr` from the beginning of
`read_buf`, and 0 also for the null pointer that it is at first. -/
structure Static where
  readCnt : ℤ
  readPtr : ℕ
  readBuf : List UInt8
  length_readBuf : readBuf.length = maxline
  inBounds : readPtr + readCnt.toNat ≤ maxline

/-- The static variables before the first call. -/
def Static.zero : Static where
  readCnt := 0
  readPtr := 0
  readBuf := List.replicate maxline 0
  length_readBuf := List.length_replicate
  inBounds := Nat.zero_le _

/-- `read` has returned 0 or -1. -/
def Static.count (s : Static) (n : ℤ) (hn : n ≤ 0) : Static where
  readCnt := n
  readPtr := s.readPtr
  readBuf := s.readBuf
  length_readBuf := s.length_readBuf
  inBounds := by
    have := s.inBounds
    omega

/-- `read` has stored some bytes. -/
def Static.fill (s : Static) (bytes : List UInt8) (h : bytes.length ≤ maxline) : Static where
  readCnt := bytes.length
  readPtr := 0
  readBuf := bytes ++ s.readBuf.drop bytes.length
  length_readBuf := by
    have := s.length_readBuf
    rw [List.length_append, List.length_drop]
    omega
  inBounds := by
    rw [Int.toNat_natCast]
    omega

/-- The byte that `my_read` stores, and what it leaves behind. -/
def Static.next (s : Static) (h : 0 < s.readCnt) : UInt8 × Static :=
  (s.readBuf.get ⟨s.readPtr, by
      have := s.inBounds
      have := s.length_readBuf
      omega⟩,
    { readCnt := s.readCnt - 1
      readPtr := s.readPtr + 1
      readBuf := s.readBuf
      length_readBuf := s.length_readBuf
      inBounds := by
        have := s.inBounds
        omega })

/-- The static variables, and what there is to be read. -/
structure Source where
  static : Static
  arrivals : List Arrival

/-- What `my_read` returns, with the byte that it stores: 1, 0 or -1. -/
inductive MyRead where
  | byte (c : UInt8)
  | eof
  | error
deriving DecidableEq, Repr

lemma length_take_maxline (l : List UInt8) : (l.take maxline).length ≤ maxline :=
  List.length_take_le maxline l

lemma fill_readCnt_pos (s : Static) (b : UInt8) (bs : List UInt8) :
    0 < (s.fill ((b :: bs).take maxline) (length_take_maxline _)).readCnt := by
  simp only [Static.fill, List.length_take, List.length_cons, maxline]
  omega

/-- `my_read` from the label `again` on. -/
def again (s : Static) : List Arrival → Option (MyRead × Source)
  | [] => none
  | .bytes b bs :: l =>
    let filled := s.fill ((b :: bs).take maxline) (length_take_maxline _)
    let (c, s') := filled.next (fill_readCnt_pos s b bs)
    some (.byte c, ⟨s', putBack ((b :: bs).drop maxline) l⟩)
  | .eof :: l => some (.eof, ⟨s.count 0 le_rfl, l⟩)
  | .eintr :: l => again (s.count (-1) (by decide)) l
  | .error :: l => some (.error, ⟨s.count (-1) (by omega), l⟩)

/-- `my_read`; `none` if it blocks. -/
def myRead (c : Source) : Option (MyRead × Source) :=
  if h : 0 < c.static.readCnt then
    some (.byte (c.static.next h).1, ⟨(c.static.next h).2, c.arrivals⟩)
  else again c.static c.arrivals

/-- What `readline` returns, what it has stored at `vptr`, and what is still to be read. -/
structure Call (σ : Type) where
  ret : ℤ
  stored : List UInt8
  source : σ

/-- The loop of `readline`, with the number of rounds that are left before `n` is `maxlen`, with
`n`, and with what was stored so far. -/
def readlineFrom {σ : Type} (next : σ → Option (MyRead × σ)) :
    ℕ → ℕ → List UInt8 → σ → Option (Call σ)
  | 0, n, line, c => some ⟨n, line ++ [0], c⟩
  | left + 1, n, line, c =>
    match next c with
    | none => none
    | some (.byte b, c) =>
      if b = newline then some ⟨n, line ++ [b] ++ [0], c⟩
      else readlineFrom next left (n + 1) (line ++ [b]) c
    | some (.eof, c) => some ⟨n - 1, line ++ [0], c⟩
    | some (.error, c) => some ⟨-1, line, c⟩

/-- `readline (fd, vptr, maxlen)` on any source of bytes. -/
def readlineOn {σ : Type} (next : σ → Option (MyRead × σ)) (maxlen : ℕ) (c : σ) :
    Option (Call σ) :=
  readlineFrom next (maxlen - 1) 1 [] c

/-- `readline (fd, vptr, maxlen)`; `none` if it blocks. -/
def readline (maxlen : ℕ) (c : Source) : Option (Call Source) := readlineOn myRead maxlen c

/-- `readlinebuf (vptrptr)`, with the distance of the pointer from the beginning of `read_buf` if
one is stored. -/
def readlinebuf (s : Static) : ℤ × Option ℕ :=
  (s.readCnt, if s.readCnt ≠ 0 then some s.readPtr else none)

/-- What a sequence of calls returns and stores, until one blocks. -/
def calls {σ : Type} (next : σ → Option (MyRead × σ)) : List ℕ → σ → List (ℤ × List UInt8)
  | [], _ => []
  | maxlen :: rest, c =>
    match readlineOn next maxlen c with
    | none => []
    | some r => (r.ret, r.stored) :: calls next rest r.source

/-! ## The source as a list -/

/-- What `my_read` makes of an arrival. -/
def Arrival.reads : Arrival → List MyRead
  | bytes b bs => (b :: bs).map .byte
  | eof => [.eof]
  | eintr => []
  | error => [.error]

/-- The bytes in the buffer that were not handed out. -/
def Static.unread (s : Static) : List UInt8 := (s.readBuf.drop s.readPtr).take s.readCnt.toNat

/-- What `my_read` will return. -/
def Source.reads (c : Source) : List MyRead :=
  c.static.unread.map .byte ++ c.arrivals.flatMap Arrival.reads

/-- The first element of a list. -/
def uncons {α : Type} : List α → Option (α × List α)
  | [] => none
  | a :: l => some (a, l)

variable {s : Static} {l : List Arrival} {c : Source}

lemma unread_of_nonpos (h : s.readCnt ≤ 0) : s.unread = [] := by
  rw [Static.unread, Int.toNat_of_nonpos h, List.take_zero]

lemma unread_count {n : ℤ} (hn : n ≤ 0) : (s.count n hn).unread = [] :=
  unread_of_nonpos hn

lemma unread_fill {bytes : List UInt8} (h : bytes.length ≤ maxline) :
    (s.fill bytes h).unread = bytes := by
  rw [Static.unread]
  simp only [Static.fill, List.drop_zero, Int.toNat_natCast]
  exact List.take_left

lemma unread_next (h : 0 < s.readCnt) : s.unread = (s.next h).1 :: (s.next h).2.unread := by
  have hlt : s.readPtr < s.readBuf.length := by
    have := s.inBounds
    have := s.length_readBuf
    omega
  obtain ⟨k, hk⟩ : ∃ k, s.readCnt.toNat = k + 1 := Nat.exists_eq_add_one.2 (by omega)
  have hk' : (s.readCnt - 1).toNat = k := by omega
  rw [Static.unread, Static.unread, hk, List.drop_eq_getElem_cons hlt, List.take_succ_cons]
  simp only [Static.next, hk', List.get_eq_getElem]

lemma flatMap_reads_putBack (bs : List UInt8) :
    (putBack bs l).flatMap Arrival.reads = bs.map .byte ++ l.flatMap Arrival.reads := by
  cases bs with
  | nil => rfl
  | cons b bs => rfl

lemma reads_append (s : Static) (l l' : List Arrival) :
    Source.reads ⟨s, l ++ l'⟩ = Source.reads ⟨s, l⟩ ++ l'.flatMap Arrival.reads := by
  simp [Source.reads]

lemma unread_eq_nil_of_reads (h : Source.reads ⟨s, l⟩ = []) : s.unread = [] := by
  simp only [Source.reads, List.append_eq_nil_iff, List.map_eq_nil_iff] at h
  exact h.1

lemma reads_of_unread (h : s.unread = []) : Source.reads ⟨s, []⟩ = [] := by
  simp [Source.reads, h]

/-- When the buffer is empty, `my_read` takes the first of the arrivals, and interruptions do not
count. -/
lemma again_refines (s : Static) (l : List Arrival) :
    (again s l).map (Prod.map id Source.reads) = uncons (l.flatMap Arrival.reads) := by
  induction l generalizing s with
  | nil => rfl
  | cons a l ih =>
    cases a with
    | eof => simp [again, Source.reads, unread_count, Arrival.reads, uncons]
    | eintr => exact ih _
    | error => simp [again, Source.reads, unread_count, Arrival.reads, uncons]
    | bytes b bs =>
      have hfill := unread_fill (s := s) (length_take_maxline (b :: bs))
      have hnext := unread_next (fill_readCnt_pos s b bs)
      rw [hfill] at hnext
      have hall : (b :: bs).map MyRead.byte ++ l.flatMap Arrival.reads
          = ((b :: bs).take maxline).map MyRead.byte
            ++ (putBack ((b :: bs).drop maxline) l).flatMap Arrival.reads := by
        rw [flatMap_reads_putBack, ← List.append_assoc, ← List.map_append,
          List.take_append_drop]
      rw [List.flatMap_cons, Arrival.reads, hall, hnext]
      rfl

/-- `my_read` takes the first element of the list. -/
theorem myRead_refines (c : Source) :
    (myRead c).map (Prod.map id Source.reads) = uncons c.reads := by
  by_cases h : 0 < c.static.readCnt
  · rw [myRead, dif_pos h, Source.reads, unread_next h]
    rfl
  · rw [myRead, dif_neg h, again_refines, Source.reads, unread_of_nonpos (not_lt.1 h)]
    rfl

/-! ## Two sources in step -/

variable {σ τ : Type} {next : σ → Option (MyRead × σ)} {next' : τ → Option (MyRead × τ)}
  {f : σ → τ}

/-- The call with what is left seen as `f` sees it. -/
def Call.map (f : σ → τ) (r : Call σ) : Call τ := ⟨r.ret, r.stored, f r.source⟩

lemma readlineFrom_map (h : ∀ c, (next c).map (Prod.map id f) = next' (f c)) (left n : ℕ)
    (line : List UInt8) (c : σ) :
    (readlineFrom next left n line c).map (Call.map f)
      = readlineFrom next' left n line (f c) := by
  induction left generalizing n line c with
  | zero => rfl
  | succ left ih =>
    have hc := h c
    rw [readlineFrom, readlineFrom, ← hc]
    cases hnext : next c with
    | none => rfl
    | some r =>
      obtain ⟨t, c'⟩ := r
      cases t with
      | eof => rfl
      | error => rfl
      | byte b =>
        by_cases hb : b = newline
        · simp [hb, Call.map]
        · simp [hb, ih]

lemma readlineOn_map (h : ∀ c, (next c).map (Prod.map id f) = next' (f c)) (maxlen : ℕ)
    (c : σ) : (readlineOn next maxlen c).map (Call.map f) = readlineOn next' maxlen (f c) :=
  readlineFrom_map h _ _ _ c

lemma calls_map (h : ∀ c, (next c).map (Prod.map id f) = next' (f c)) (maxlens : List ℕ)
    (c : σ) : calls next maxlens c = calls next' maxlens (f c) := by
  induction maxlens generalizing c with
  | nil => rfl
  | cons maxlen rest ih =>
    rw [calls, calls, ← readlineOn_map h maxlen c]
    cases readlineOn next maxlen c with
    | none => rfl
    | some r => exact congrArg _ (ih r.source)

/-- `readline` on the list. -/
lemma readline_refines (maxlen : ℕ) (c : Source) :
    (readline maxlen c).map (Call.map Source.reads) = readlineOn uncons maxlen c.reads :=
  readlineOn_map myRead_refines maxlen c

/-- What any sequence of calls returns and stores depends on the bytes, the ends of file and the
errors only. -/
theorem calls_eq (maxlens : List ℕ) (c : Source) :
    calls myRead maxlens c = calls uncons maxlens c.reads :=
  calls_map myRead_refines maxlens c

end CppExample.BasicLib
