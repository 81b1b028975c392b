/-
# What `readline` returns

A call of `readline` takes the next line, which is cut when `maxlen - 1` bytes are stored.  The
value that it returns is the number of the bytes that it has stored in front of the 0, except that
it is one more for a line that is cut.  If reading fails, then the bytes before the error are
gone, since they are not in the buffer any more: `readline_contract`.

Hence a text that is followed by an end of file is read line by line, whatever the
distribution of its bytes over the calls of `read`: `calls_text`.
-/
import CppExample.BasicLib.Readline

namespace CppExample.BasicLib
open Lib

/-- The byte closes a line. -/
def isNewline (b : UInt8) : Bool := b = newline

/-- The line ends with a newline. -/
def closed (x : List UInt8) : Bool := x.getLast? = some newline

/-- The bytes before the next end of file or error. -/
def ahead : List MyRead → List UInt8
  | .byte b :: ts => b :: ahead ts
  | _ => []

/-- The next end of file or error, and all that follows. -/
def behind : List MyRead → List MyRead
  | .byte _ :: ts => behind ts
  | ts => ts

/-- The line that a call with `left` bytes of room takes. -/
def lineOf (left : ℕ) (ts : List MyRead) : List UInt8 := firstLine isNewline left (ahead ts)

/-- What a call with `left` bytes of room does, when `n` and `line` are the values of the
variables of `readline`. -/
def takeLine (left n : ℕ) (line : List UInt8) (ts : List MyRead) : Option (Call (List MyRead)) :=
  let x := lineOf left ts
  if Whole isNewline left x then
    some ⟨if closed x then n + x.length - 1 else n + x.length, line ++ x ++ [0],
      ts.drop x.length⟩
  else
    match behind ts with
    | .eof :: rest => some ⟨n + x.length - 1, line ++ x ++ [0], rest⟩
    | .error :: rest => some ⟨-1, line ++ x, rest⟩
    | _ => none

variable {left n maxlen : ℕ} {line x : List UInt8} {ts : List MyRead} {b : UInt8} {c : Source}

@[simp] lemma ahead_bytes (x : List UInt8) (ts : List MyRead) :
    ahead (x.map .byte ++ ts) = x ++ ahead ts := by
  induction x with
  | nil => rfl
  | cons b x ih => rw [List.map_cons, List.cons_append, ahead, ih, List.cons_append]

@[simp] lemma behind_bytes (x : List UInt8) (ts : List MyRead) :
    behind (x.map .byte ++ ts) = behind ts := by
  induction x with
  | nil => rfl
  | cons b x ih => rw [List.map_cons, List.cons_append, behind, ih]

lemma closed_cons (h : b ≠ newline) : closed (b :: x) = closed x := by
  cases x with
  | nil => simp [closed, h]
  | cons d x => simp [closed, List.getLast?_cons_cons]

lemma lineOf_byte (h : b ≠ newline) :
    lineOf (left + 1) (.byte b :: ts) = b :: lineOf left ts :=
  firstLine_cons_of_not (by simp [isNewline, h])

/-- A byte that is not a newline is stored, and the loop goes on. -/
lemma takeLine_byte (h : b ≠ newline) :
    takeLine (left + 1) n line (.byte b :: ts) = takeLine left (n + 1) (line ++ [b]) ts := by
  have hnot : ¬ isNewline b := by simp [isNewline, h]
  have hlen : ((n + 1 : ℕ) : ℤ) + (lineOf left ts).length
      = n + ((lineOf left ts).length + 1 : ℕ) := by
    push_cast
    ring
  simp only [takeLine, lineOf_byte h, whole_cons_iff hnot, closed_cons h, behind,
    List.length_cons, List.drop_succ_cons, hlen, List.append_assoc, List.singleton_append]

/-- The loop of `readline` on a list. -/
lemma readlineFrom_uncons (left n : ℕ) (line : List UInt8) (ts : List MyRead) :
    readlineFrom uncons left n line ts = takeLine left n line ts := by
  induction left generalizing n line ts with
  | zero => simp [readlineFrom, takeLine, lineOf, Whole, closed]
  | succ left ih =>
    cases ts with
    | nil => simp [readlineFrom, uncons, takeLine, lineOf, ahead, behind, Whole]
    | cons t ts =>
      cases t with
      | eof => simp [readlineFrom, uncons, takeLine, lineOf, ahead, behind, Whole]
      | error => simp [readlineFrom, uncons, takeLine, lineOf, ahead, behind, Whole]
      | byte b =>
        by_cases h : b = newline
        · have hline : lineOf (left + 1) (.byte b :: ts) = [b] :=
            firstLine_cons_of_closes (by simp [isNewline, h])
          have hwhole : Whole isNewline (left + 1) [b] :=
            whole_singleton (by simp [isNewline, h])
          have hclosed : closed [b] = true := by simp [closed, h]
          simp only [takeLine, hline, if_pos hwhole, hclosed, readlineFrom, uncons, if_pos h]
          simp
        · rw [takeLine_byte h, ← ih, readlineFrom]
          simp [uncons, h]

/-- What a call returns, stores and leaves. -/
lemma readline_takeLine (maxlen : ℕ) (c : Source) :
    (readline maxlen c).map (Call.map Source.reads) = takeLine (maxlen - 1) 1 [] c.reads := by
  rw [readline_refines, readlineOn, readlineFrom_uncons]

lemma readline_eq_none_iff :
    readline maxlen c = none ↔ takeLine (maxlen - 1) 1 [] c.reads = none := by
  rw [← readline_takeLine, Option.map_eq_none_iff]

lemma exists_readline {r' : Call (List MyRead)} (h : takeLine (maxlen - 1) 1 [] c.reads = some r') :
    ∃ r, readline maxlen c = some r ∧ r.map Source.reads = r' := by
  rw [← readline_takeLine, Option.map_eq_some_iff] at h
  exact h

/-- The value that is returned for a line. -/
def retOf (maxlen : ℕ) (x : List UInt8) : ℤ :=
  if ¬ closed x ∧ x.length = maxlen - 1 then x.length + 1 else x.length

/-- A whole line that is not closed is cut. -/
lemma length_of_whole (h : Whole isNewline left x) (hx : ¬ closed x) : x.length = left := by
  rcases h with h | ⟨b, hb, hnl⟩
  · exact h
  · obtain rfl : b = newline := of_decide_eq_true hnl
    exact absurd (decide_eq_true hb) hx

/-- The value that `takeLine` has for a whole line. -/
lemma ret_of_whole (h : Whole isNewline (maxlen - 1) x) :
    (if closed x then ((1 : ℕ) : ℤ) + x.length - 1 else (1 : ℕ) + x.length) = retOf maxlen x := by
  rw [retOf]
  by_cases hc : closed x
  · simp [hc]
  · simp only [hc, length_of_whole h hc]
    simp
    ring

/-- The value for a line that is not whole. -/
lemma ret_of_not_whole (h : ¬ Whole isNewline (maxlen - 1) x) : retOf maxlen x = x.length :=
  if_neg fun hcut => h (.inl hcut.2)

/-- The list consists of the bytes before the next end of file or error, and of what follows. -/
lemma ahead_append_behind (ts : List MyRead) : (ahead ts).map .byte ++ behind ts = ts := by
  induction ts with
  | nil => rfl
  | cons t ts ih =>
    cases t with
    | byte b => rw [ahead, behind, List.map_cons, List.cons_append, ih]
    | eof => rfl
    | error => rfl

/-- A line is taken from the beginning of the list. -/
lemma lineOf_append_drop (left : ℕ) (ts : List MyRead) :
    (lineOf left ts).map .byte ++ ts.drop (lineOf left ts).length = ts := by
  have hpre : (lineOf left ts).map MyRead.byte <+: ts := by
    obtain ⟨t, ht⟩ : lineOf left ts <+: ahead ts := prefix_firstLine left (ahead ts)
    refine ⟨t.map .byte ++ behind ts, ?_⟩
    rw [← List.append_assoc, ← List.map_append, ht, ahead_append_behind]
  have hdrop := List.prefix_append_drop hpre
  rw [List.length_map] at hdrop
  exact hdrop.symm

/-- The next line is not whole: it is all that comes before an end of file or an error. -/
lemma lineOf_append_behind (h : ¬ Whole isNewline left (lineOf left ts)) :
    (lineOf left ts).map .byte ++ behind ts = ts := by
  rw [lineOf, firstLine_eq_self h, ahead_append_behind]

lemma behind_ne_byte (b : UInt8) (ts' : List MyRead) : behind ts ≠ .byte b :: ts' := by
  induction ts with
  | nil => simp [behind]
  | cons t ts ih =>
    cases t with
    | byte d => exact ih
    | eof => simp [behind]
    | error => simp [behind]

/-! ## The contract -/

/-- What a call has done that returns the next line `x` of its source. -/
structure Returns (maxlen : ℕ) (c : Source) (x : List UInt8) (r : Call Source) : Prop where
  ret : r.ret = retOf maxlen x
  stored : r.stored = x ++ [0]
  rest : Whole isNewline (maxlen - 1) x ∧ c.reads = x.map .byte ++ r.source.reads ∨
    ¬ Whole isNewline (maxlen - 1) x ∧ c.reads = x.map .byte ++ .eof :: r.source.reads

/-- What a call has done that fails: `x` is stored, and not in the buffer any more. -/
structure Fails (maxlen : ℕ) (c : Source) (x : List UInt8) (r : Call Source) : Prop where
  ret : r.ret = -1
  stored : r.stored = x
  not_whole : ¬ Whole isNewline (maxlen - 1) x
  rest : c.reads = x.map .byte ++ .error :: r.source.reads

/-- A call blocks if there is only a part of a line.  Otherwise it returns the next line, or the
error that comes before its end, and it never stores more than `maxlen` bytes, or one byte if
`maxlen` is 0. -/
theorem readline_contract (maxlen : ℕ) (c : Source) :
    (readline maxlen c = none ↔
      ¬ Whole isNewline (maxlen - 1) (lineOf (maxlen - 1) c.reads) ∧ behind c.reads = []) ∧
    ∀ r, readline maxlen c = some r →
      r.stored.length ≤ max maxlen 1 ∧
        (Returns maxlen c (lineOf (maxlen - 1) c.reads) r ∨
          Fails maxlen c (lineOf (maxlen - 1) c.reads) r) := by
  have hlen : (lineOf (maxlen - 1) c.reads).length ≤ maxlen - 1 := length_firstLine_le _ _
  by_cases hw : Whole isNewline (maxlen - 1) (lineOf (maxlen - 1) c.reads)
  · -- a whole line
    have htake : takeLine (maxlen - 1) 1 [] c.reads
        = some ⟨retOf maxlen (lineOf (maxlen - 1) c.reads), lineOf (maxlen - 1) c.reads ++ [0],
          c.reads.drop (lineOf (maxlen - 1) c.reads).length⟩ := by
      rw [takeLine]
      simp only [if_pos hw, ret_of_whole hw, List.nil_append]
    refine ⟨?_, fun r hr => ?_⟩
    · rw [readline_eq_none_iff, htake]
      simp [hw]
    · have hmap := readline_takeLine maxlen c
      rw [hr, htake, Option.map_some, Option.some.injEq] at hmap
      have hstored : r.stored = lineOf (maxlen - 1) c.reads ++ [0] := congrArg Call.stored hmap
      have hreads : r.source.reads = c.reads.drop (lineOf (maxlen - 1) c.reads).length :=
        congrArg Call.source hmap
      refine ⟨?_, .inl ⟨congrArg Call.ret hmap, hstored, .inl ⟨hw, ?_⟩⟩⟩
      · rw [hstored, List.length_append, List.length_singleton]
        omega
      · rw [hreads, lineOf_append_drop]
  · -- the source ends first, or the call blocks
    have hsplit := lineOf_append_behind hw
    have htake : takeLine (maxlen - 1) 1 [] c.reads = match behind c.reads with
        | .eof :: rest => some ⟨retOf maxlen (lineOf (maxlen - 1) c.reads),
          lineOf (maxlen - 1) c.reads ++ [0], rest⟩
        | .error :: rest => some ⟨-1, lineOf (maxlen - 1) c.reads, rest⟩
        | _ => none := by
      rw [takeLine]
      simp only [if_neg hw, ret_of_not_whole hw, List.nil_append, Nat.cast_one,
        add_sub_cancel_left]
    rw [readline_eq_none_iff, htake]
    have hmap := readline_takeLine maxlen c
    rw [htake] at hmap
    cases hb : behind c.reads with
    | nil =>
      refine ⟨by simp [hw], fun r hr => ?_⟩
      rw [hr, hb] at hmap
      simp at hmap
    | cons t rest =>
      rw [hb] at hsplit
      cases t with
      | byte b => exact absurd hb (behind_ne_byte b rest)
      | eof =>
        refine ⟨by simp, fun r hr => ?_⟩
        rw [hr, hb, Option.map_some, Option.some.injEq] at hmap
        have hstored : r.stored = lineOf (maxlen - 1) c.reads ++ [0] := congrArg Call.stored hmap
        have hreads : r.source.reads = rest := congrArg Call.source hmap
        refine ⟨?_, .inl ⟨congrArg Call.ret hmap, hstored, .inr ⟨hw, ?_⟩⟩⟩
        · rw [hstored, List.length_append, List.length_singleton]
          omega
        · rw [hreads, hsplit]
      | error =>
        refine ⟨by simp, fun r hr => ?_⟩
        rw [hr, hb, Option.map_some, Option.some.injEq] at hmap
        have hstored : r.stored = lineOf (maxlen - 1) c.reads := congrArg Call.stored hmap
        have hreads : r.source.reads = rest := congrArg Call.source hmap
        refine ⟨?_, .inr ⟨congrArg Call.ret hmap, hstored, hw, ?_⟩⟩
        · rw [hstored]
          omega
        · rw [hreads, hsplit]

/-! ## Reading a text -/

lemma ahead_eof (x : List UInt8) (ts : List MyRead) : ahead (x.map .byte ++ .eof :: ts) = x := by
  simp [ahead]

/-- A call that finds a whole line. -/
lemma takeLine_of_whole (h : Whole isNewline (maxlen - 1) (firstLine isNewline (maxlen - 1) x))
    (hts : ahead ts = []) :
    takeLine (maxlen - 1) 1 [] (x.map .byte ++ ts)
      = some ⟨retOf maxlen (firstLine isNewline (maxlen - 1) x),
          firstLine isNewline (maxlen - 1) x ++ [0],
          (afterLine isNewline (maxlen - 1) x).map .byte ++ ts⟩ := by
  have hline : lineOf (maxlen - 1) (x.map .byte ++ ts) = firstLine isNewline (maxlen - 1) x := by
    rw [lineOf, ahead_bytes, hts, List.append_nil]
  have hdrop : (x.map MyRead.byte ++ ts).drop (firstLine isNewline (maxlen - 1) x).length
      = (afterLine isNewline (maxlen - 1) x).map .byte ++ ts := by
    rw [List.drop_append_of_le_length, afterLine, List.map_drop]
    rw [List.length_map]
    exact (prefix_firstLine _ _).length_le
  rw [takeLine]
  simp only [hline, if_pos h, hdrop, List.nil_append, ret_of_whole h]

/-- A call that finds the end of the file first. -/
lemma takeLine_of_eof (h : ¬ Whole isNewline (maxlen - 1) (firstLine isNewline (maxlen - 1) x)) :
    takeLine (maxlen - 1) 1 [] (x.map .byte ++ .eof :: ts)
      = some ⟨retOf maxlen x, x ++ [0], ts⟩ := by
  have hself := firstLine_eq_self h
  rw [hself] at h
  have hline : lineOf (maxlen - 1) (x.map .byte ++ .eof :: ts) = x := by
    rw [lineOf, ahead_eof, hself]
  rw [takeLine]
  simp [hline, h, behind, ret_of_not_whole h]

/-- A call that finds an error first. -/
lemma takeLine_of_error (h : ¬ Whole isNewline (maxlen - 1) (firstLine isNewline (maxlen - 1) x)) :
    takeLine (maxlen - 1) 1 [] (x.map .byte ++ .error :: ts) = some ⟨-1, x, ts⟩ := by
  have hself := firstLine_eq_self h
  rw [hself] at h
  have hline : lineOf (maxlen - 1) (x.map .byte ++ .error :: ts) = x := by
    rw [lineOf, ahead_bytes, ahead, List.append_nil, hself]
    simp
  rw [takeLine]
  simp [hline, h, behind]

/-- A call that finds a part of a line blocks. -/
lemma takeLine_bytes_eq_none_iff :
    takeLine (maxlen - 1) 1 [] (x.map .byte) = none ↔
      ¬ Whole isNewline (maxlen - 1) (firstLine isNewline (maxlen - 1) x) := by
  constructor
  · intro h hwhole
    have hsome := @takeLine_of_whole maxlen x [] hwhole rfl
    rw [List.append_nil, h] at hsome
    cases hsome
  · intro h
    have hline : lineOf (maxlen - 1) (x.map .byte) = firstLine isNewline (maxlen - 1) x := by
      have := ahead_bytes x []
      rw [List.append_nil] at this
      rw [lineOf, this, ahead, List.append_nil]
      simp
    have hbehind : behind (x.map .byte) = [] := by
      have := behind_bytes x []
      rwa [List.append_nil] at this
    rw [takeLine]
    simp [hline, h, hbehind]

/-- The calls on the list of a text, after whose end the end of the file is reported once more. -/
lemma calls_uncons_text (hm : 2 ≤ maxlen) (text : List UInt8) (e : List MyRead)
    (he : (∃ ts, e = .eof :: .eof :: ts) ∨ text = [] ∧ ∃ ts, e = .eof :: ts) :
    calls uncons (List.replicate ((lines isNewline (maxlen - 1) text).length + 1) maxlen)
        (text.map .byte ++ e)
      = (lines isNewline (maxlen - 1) text).map (fun x => (retOf maxlen x, x ++ [0]))
        ++ [(0, [0])] := by
  have hpos : 0 < maxlen - 1 := by omega
  by_cases htext : text = []
  · -- nothing is left but the end of the file
    subst htext
    obtain ⟨ts, rfl⟩ : ∃ ts, e = .eof :: ts := by
      rcases he with ⟨ts, rfl⟩ | ⟨-, he⟩
      · exact ⟨_, rfl⟩
      · exact he
    have hnot : ¬ Whole isNewline (maxlen - 1) (firstLine isNewline (maxlen - 1) []) := by
      simp [Whole]
      omega
    have hcall := @takeLine_of_eof maxlen [] ts hnot
    rw [lines_nil, List.length_nil, List.replicate_one, calls, readlineOn, readlineFrom_uncons,
      hcall]
    simp [calls, retOf]
    omega
  · obtain ⟨ts, rfl⟩ : ∃ ts, e = .eof :: .eof :: ts := by
      rcases he with he | ⟨hnil, -⟩
      · exact he
      · exact absurd hnil htext
    rw [lines_of_ne_nil hpos htext, List.length_cons, List.replicate_succ, calls, readlineOn,
      readlineFrom_uncons]
    have hlt : (afterLine isNewline (maxlen - 1) text).length < text.length :=
      afterLine_length_lt hpos htext
    by_cases hwhole : Whole isNewline (maxlen - 1) (firstLine isNewline (maxlen - 1) text)
    · rw [takeLine_of_whole hwhole rfl, List.map_cons, List.cons_append]
      exact congrArg _ (calls_uncons_text hm _ _ (.inl ⟨ts, rfl⟩))
    · have hself := firstLine_eq_self hwhole
      have hrest : afterLine isNewline (maxlen - 1) text = [] := by
        rw [afterLine, hself, List.drop_length]
      rw [takeLine_of_eof hwhole, hself, hrest, List.map_cons, List.cons_append]
      have hrec := calls_uncons_text hm [] (.eof :: ts) (.inr ⟨rfl, ts, rfl⟩)
      exact congrArg _ hrec
termination_by text.length

/-- A text is read as its lines, and then the end of the file is reported. -/
theorem calls_text (hm : 2 ≤ maxlen) (text : List UInt8) (ts : List MyRead)
    (hc : c.reads = text.map .byte ++ .eof :: .eof :: ts) :
    calls myRead (List.replicate ((lines isNewline (maxlen - 1) text).length + 1) maxlen) c
      = (lines isNewline (maxlen - 1) text).map (fun x => (retOf maxlen x, x ++ [0]))
        ++ [(0, [0])] := by
  rw [calls_map myRead_refines, hc]
  exact calls_uncons_text hm text _ (.inl ⟨ts, rfl⟩)

/-- Two lines, the first of which arrives with a part of the second one. -/
theorem calls_text_sample :
    calls myRead (List.replicate ((lines isNewline 7 [104, 10, 105, 10]).length + 1) 8)
        ⟨.zero, [.bytes 104 [10, 105], .eintr, .bytes 10 [], .eof, .eof]⟩
      = (lines isNewline 7 [104, 10, 105, 10]).map (fun x => (retOf 8 x, x ++ [0])) ++ [(0, [0])] :=
  calls_text (by decide) [104, 10, 105, 10] [] rfl

end CppExample.BasicLib
