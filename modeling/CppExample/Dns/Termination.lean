/-
# Names that do not end

The loop of `dns_parse_name` goes from label to label and follows pointers to wherever they
lead, the position of the pointer itself included.  Where it goes next depends on the packet
and the cursor alone.  It goes on for ever exactly if the cursor comes to a position that leads
back to itself: `nameEnds_iff`.  The other loops of `dns_parse_response` count down, or move the
cursor to the end of the buffer.
-/
import CppExample.Dns.Response
import CppExample.Lib.Walk

namespace CppExample.Dns
open Lib

/-- Where the loop of `dns_parse_name` goes from a position: nowhere at a zero byte, and when it
leaves the buffer. -/
def nextPtr (buf : List UInt8) (ptr : ℕ) : Option ℕ :=
  match buf[ptr]? with
  | none => none
  | some flag =>
    if flag = 0 then none
    else if isPointer flag then buf[ptr + 1]?.map UInt8.toNat
    else if ptr + 1 + flag.toNat < buf.length then some (ptr + 1 + flag.toNat)
    else none

/-- From some number of iterations on, the loop that starts at the position is over, whatever
room there is for what it writes. -/
def NameEnds (buf : List UInt8) (ptr : ℕ) : Prop :=
  ∃ n, ∀ fuel, n ≤ fuel → ∀ pos out len, parseNameLoop fuel buf ptr pos out len ≠ .error .fuel

/-- `dns_parse_response` returns, or leaves an array. -/
def ResponseEnds (buf : List UInt8) : Prop :=
  ∃ n, ∀ fuel, n ≤ fuel → ∀ calloc, dnsParseResponse fuel calloc buf ≠ .error .fuel

variable {buf : List UInt8} {ptr q : ℕ}

lemma finite_goes : {q | ∃ ptr, Goes (nextPtr buf) ptr q}.Finite := by
  refine (Set.finite_lt_nat (buf.length + 256)).subset ?_
  rintro q ⟨ptr, hq⟩
  show q < buf.length + 256
  rw [Goes, nextPtr] at hq
  split at hq
  · cases hq
  · split at hq
    · cases hq
    · split at hq
      · obtain ⟨n, -, rfl⟩ := Option.map_eq_some_iff.1 hq
        have hlt := n.toNat_lt
        omega
      · split at hq
        · obtain rfl := Option.some.inj hq
          omega
        · cases hq

/-! ## One iteration -/

/-- Runs that do not use up their budget. -/
abbrev InTime {α : Type} (x : Except Fault α) : Prop := FailsOnly (· ≠ .fuel) x

lemma inTime_iff {α : Type} {x : Except Fault α} : InTime x ↔ x ≠ .error .fuel := by
  constructor
  · rintro h rfl
    exact h .fuel rfl rfl
  · rintro h e rfl rfl
    exact h rfl

lemma inTime_load {α : Type} (buf : List α) (off : ℕ) : InTime (load buf off) :=
  failsOnly_load fun _ h => nomatch h

lemma inTime_slice {α : Type} (buf : List α) (off n : ℕ) : InTime (slice buf off n) :=
  failsOnly_slice fun _ h => nomatch h

lemma inTime_store {α : Type} (buf : List α) (off : ℕ) (xs : List α) : InTime (store buf off xs) :=
  failsOnly_store fun _ h => nomatch h

/-- The budget is not used up by an iteration, if it is not by those that follow. -/
lemma inTime_parseNameLoop_succ {fuel pos len : ℕ} {out : List UInt8}
    (h : ∀ q, nextPtr buf ptr = some q →
      ∀ pos out len, InTime (parseNameLoop fuel buf q pos out len)) :
    InTime (parseNameLoop (fuel + 1) buf ptr pos out len) := by
  rw [parseNameLoop]
  refine (inTime_load _ _).bind fun flag hflag => ?_
  have hflag := getElem?_of_load hflag
  split
  · exact failsOnly_ok _
  · next h0 =>
    split
    · next hp =>
      refine (inTime_load _ _).bind fun n hn => ?_
      refine h n.toNat ?_ _ _ _
      simp [nextPtr, hflag, h0, hp, getElem?_of_load hn]
    · next hp =>
      dsimp only
      refine (inTime_slice _ _ _).bind fun label _ => (inTime_store _ _ _).bind fun out _ => ?_
      refine (inTime_load _ _).bind fun next hnext => ?_
      have hlt := (List.getElem?_eq_some_iff.1 (getElem?_of_load hnext)).1
      have hgoes : nextPtr buf ptr = some (ptr + 1 + flag.toNat) := by
        simp [nextPtr, hflag, h0, hp, hlt]
      split
      · exact (inTime_store _ _ _).bind fun out _ => h _ hgoes _ _ _
      · exact h _ hgoes _ _ _

/-- A position that leads to another one is a label or a pointer. -/
lemma exists_follows_of_goes (h : nextPtr buf ptr = some q) : ∃ text, Follows buf ptr text q := by
  rw [nextPtr] at h
  split at h
  · cases h
  · next flag hflag =>
    split at h
    · cases h
    · next h0 =>
      split at h
      · next hp =>
        obtain ⟨lo, hlo, rfl⟩ := Option.map_eq_some_iff.1 h
        exact ⟨[], .pointer (hasAt_cons_iff.2 ⟨hflag, hasAt_cons_iff.2 ⟨hlo, List.nil_prefix⟩⟩) hp⟩
      · next hp =>
        split at h
        · next hlt =>
          obtain rfl := Option.some.inj h
          rw [Bool.not_eq_true] at hp
          obtain ⟨l, hl, hat, hlen⟩ := exists_taken hflag h0 hp (by omega)
          rw [Nat.add_assoc, ← hlen] at hlt ⊢
          exact ⟨_, .label hl hat (List.getElem?_eq_getElem hlt)⟩
        · cases h

/-- With room for what it writes, the loop goes on at the next position. -/
lemma parseNameLoop_of_goes (h : nextPtr buf ptr = some q) (fuel : ℕ) {pos : ℕ} {out : List UInt8}
    (hroom : pos + 256 ≤ out.length) (len : ℕ) :
    ∃ pos' out' len', pos' ≤ pos + 256 ∧ out'.length = out.length ∧
      parseNameLoop (fuel + 1) buf ptr pos out len = parseNameLoop fuel buf q pos' out' len' := by
  obtain ⟨text, hround⟩ := exists_follows_of_goes h
  have hle := hround.length_le
  have hroom' : pos + text.length ≤ out.length := by omega
  obtain ⟨out', -, hlen, heq⟩ := hround.parseNameLoop_eq hroom'
  exact ⟨pos + text.length, out', len + text.length, by omega, hlen, heq fuel len⟩

/-! ## The loop -/

/-- A walk that ends needs finitely many iterations. -/
lemma nameEnds_of_acc (h : Acc (Function.swap (Goes (nextPtr buf))) ptr) : NameEnds buf ptr := by
  induction h with
  | intro ptr _ ih =>
    have hrest : ∃ n, ∀ q, nextPtr buf ptr = some q → ∀ fuel, n ≤ fuel → ∀ pos out len,
        parseNameLoop fuel buf q pos out len ≠ .error .fuel := by
      cases hq : nextPtr buf ptr with
      | none => exact ⟨0, fun q h => nomatch h⟩
      | some q =>
        obtain ⟨n, hn⟩ := ih q hq
        refine ⟨n, fun q' hq' => ?_⟩
        obtain rfl := Option.some.inj hq'
        exact hn
    obtain ⟨n, hn⟩ := hrest
    refine ⟨n + 1, fun fuel hfuel pos out len => ?_⟩
    obtain ⟨fuel, rfl⟩ := Nat.exists_eq_add_of_le' (Nat.le_of_add_left_le hfuel)
    rw [← inTime_iff]
    refine inTime_parseNameLoop_succ fun q hq pos out len => ?_
    exact inTime_iff.2 (hn q hq fuel (by omega) pos out len)

/-- On a walk without an end every budget is used up, if only there is room enough. -/
lemma exists_out_of_endless (fuel : ℕ) : ∀ {ptr : ℕ}, Endless (nextPtr buf) ptr →
    ∀ pos (out : List UInt8) len, pos + 256 * fuel ≤ out.length →
      parseNameLoop fuel buf ptr pos out len = .error .fuel := by
  induction fuel with
  | zero =>
    intro ptr _ pos out len _
    rfl
  | succ fuel ih =>
    intro ptr hend pos out len hroom
    rw [Nat.mul_succ] at hroom
    obtain ⟨q, hq, hend'⟩ := hend.exists_goes
    have hone : pos + 256 ≤ out.length := le_trans (by simp) hroom
    obtain ⟨pos', out', len', hpos, hlen, heq⟩ := parseNameLoop_of_goes hq fuel hone len
    rw [heq]
    exact ih hend' pos' out' len' (by omega)

lemma nameEnds_iff_not_endless : NameEnds buf ptr ↔ ¬ Endless (nextPtr buf) ptr := by
  constructor
  · rintro ⟨n, hn⟩ hend
    obtain ⟨out, hout⟩ : ∃ out : List UInt8, out.length = 256 * n :=
      ⟨List.replicate (256 * n) 0, List.length_replicate⟩
    exact hn n le_rfl 0 out 0 (exists_out_of_endless n hend 0 out 0 (by omega))
  · intro h
    exact nameEnds_of_acc ((acc_iff_not_endless finite_goes).2 h)

/-- Behind the buffer there is nothing to follow. -/
lemma nextPtr_eq_none_of_le (h : buf.length ≤ ptr) : nextPtr buf ptr = none := by
  rw [nextPtr, List.getElem?_eq_none h]

/-- One number of iterations is enough for all the names of a buffer. -/
lemma exists_nameEnds (h : ∀ ptr, NameEnds buf ptr) :
    ∃ n, ∀ fuel, n ≤ fuel → ∀ ptr pos out len,
      parseNameLoop fuel buf ptr pos out len ≠ .error .fuel := by
  choose n hn using h
  refine ⟨(Finset.range buf.length).sup n + 1, fun fuel hfuel ptr pos out len => ?_⟩
  by_cases hptr : ptr < buf.length
  · have hsup : n ptr ≤ (Finset.range buf.length).sup n := Finset.le_sup (Finset.mem_range.2 hptr)
    exact hn ptr fuel (by omega) pos out len
  · obtain ⟨fuel, rfl⟩ := Nat.exists_eq_add_of_le' (Nat.le_of_add_left_le hfuel)
    rw [← inTime_iff]
    refine inTime_parseNameLoop_succ fun q hq => ?_
    rw [nextPtr_eq_none_of_le (not_lt.1 hptr)] at hq
    cases hq

/-! ## The other loops -/

/-- The cursor of the inner skip loop moves to the end of the buffer. -/
lemma inTime_skipName {fuel : ℕ} (hfuel : buf.length - ptr < fuel) :
    InTime (skipName fuel buf ptr) := by
  induction fuel generalizing ptr with
  | zero => omega
  | succ fuel ih =>
    rw [skipName]
    refine (inTime_load _ _).bind fun flag hflag => ?_
    have hlt := (List.getElem?_eq_some_iff.1 (getElem?_of_load hflag)).1
    dsimp only
    split
    · exact failsOnly_ok _
    · exact ih (by omega)

lemma inTime_skipQuestions {fuel : ℕ} (hfuel : buf.length < fuel) (querys ptr : ℕ) :
    InTime (skipQuestions fuel buf querys ptr) := by
  induction querys generalizing ptr with
  | zero => exact failsOnly_ok _
  | succ querys ih =>
    rw [skipQuestions]
    exact (inTime_skipName (by omega)).bind fun ptr _ => ih _

lemma inTime_loadShort (buf : List UInt8) (ptr : ℕ) : InTime (loadShort buf ptr) := by
  rw [loadShort]
  exact (inTime_load _ _).bind fun lo _ => (inTime_load _ _).bind fun hi _ => failsOnly_ok _

lemma inTime_parseHead {fuel : ℕ} (hfuel : buf.length < fuel) : InTime (parseHead fuel buf) := by
  rw [parseHead]
  refine (inTime_loadShort _ _).bind fun querys _ => (inTime_loadShort _ _).bind fun answers _ => ?_
  exact (inTime_skipQuestions hfuel _ _).bind fun ptr _ => failsOnly_ok _

lemma inTime_cstr (buf : List UInt8) : InTime (cstr buf) := by
  rw [cstr]
  split
  · exact failsOnly_ok _
  · rintro e he rfl
    cases he

lemma inTime_inetNtop (netip dst : List UInt8) (size : ℕ) : InTime (inetNtop netip dst size) := by
  rw [inetNtop]
  split
  · exact inTime_store _ _ _
  · exact failsOnly_ok _

/-- A round of the answer loop is over when its names are. -/
lemma inTime_parseAnswer {fuel : ℕ}
    (hname : ∀ ptr, InTime (dnsParseName fuel buf ptr (List.replicate 128 0) 0))
    (ptr cnt : ℕ) (list : List DnsItem) : InTime (parseAnswer fuel buf ptr cnt list) := by
  rw [parseAnswer]
  refine (hname _).bind fun aname _ => ?_
  refine (inTime_loadShort _ _).bind fun type _ => (inTime_loadShort _ _).bind fun qclass _ => ?_
  refine (inTime_loadShort _ _).bind fun ttl _ => (inTime_loadShort _ _).bind fun datalen _ => ?_
  dsimp only
  split
  · exact (hname _).bind fun cname _ => failsOnly_ok _
  · split
    · split
      · refine (inTime_slice _ _ _).bind fun netip _ => (inTime_inetNtop _ _ _).bind fun ip _ => ?_
        refine (inTime_cstr _).bind fun domain _ => (inTime_cstr _).bind fun text _ => ?_
        exact (inTime_store _ _ _).bind fun list _ => failsOnly_ok _
      · exact failsOnly_ok _
    · exact failsOnly_ok _

lemma inTime_parseAnswers {fuel : ℕ}
    (hname : ∀ ptr, InTime (dnsParseName fuel buf ptr (List.replicate 128 0) 0))
    (answers ptr cnt : ℕ) (list : List DnsItem) :
    InTime (parseAnswers fuel buf answers ptr cnt list) := by
  induction answers generalizing ptr cnt list with
  | zero => exact failsOnly_ok _
  | succ answers ih =>
    rw [parseAnswers]
    exact (inTime_parseAnswer hname _ _ _).bind fun _ _ => ih _ _ _

/-- When all names end, the response ends. -/
lemma responseEnds_of_nameEnds (h : ∀ ptr, NameEnds buf ptr) : ResponseEnds buf := by
  obtain ⟨n, hn⟩ := exists_nameEnds h
  refine ⟨max n (buf.length + 1), fun fuel hfuel calloc => ?_⟩
  have hname : ∀ ptr, InTime (dnsParseName fuel buf ptr (List.replicate 128 0) 0) :=
    fun ptr => inTime_iff.2 (hn fuel (le_of_max_le_left hfuel) ptr _ _ _)
  have hlen : buf.length < fuel := le_of_max_le_right hfuel
  rw [← inTime_iff, dnsParseResponse]
  refine (inTime_parseHead hlen).bind fun head _ => ?_
  obtain ⟨querys, answers, ptr⟩ := head
  dsimp only
  split
  · exact (inTime_parseAnswers hname _ _ _ _).bind fun _ _ => failsOnly_ok _
  · exact failsOnly_ok _

/-! ## The buffers on which everything ends -/

/-- **Termination of the name loop.**  Started at a position, the loop of `dns_parse_name` ends
exactly if no position that it comes to leads back to itself.  When there is no such position
in the buffer, and only then, all names and the whole response end. -/
theorem nameEnds_iff (buf : List UInt8) :
    (∀ ptr, NameEnds buf ptr ↔ ¬ Endless (nextPtr buf) ptr) ∧
      ((∀ ptr, NameEnds buf ptr) ∧ ResponseEnds buf ↔ ∀ ptr, ¬ Loops (nextPtr buf) ptr) := by
  refine ⟨fun ptr => nameEnds_iff_not_endless, ?_, fun h => ?_⟩
  · rintro ⟨h, -⟩ ptr hloop
    exact nameEnds_iff_not_endless.1 (h ptr) hloop.endless
  · have hends : ∀ ptr, NameEnds buf ptr := by
      refine fun ptr => nameEnds_iff_not_endless.2 ?_
      rintro ⟨q, -, hloop⟩
      exact h q hloop
    exact ⟨hends, responseEnds_of_nameEnds hends⟩

/-- A response to no question, with one answer whose owner is a pointer to itself. -/
def selfPointer : List UInt8 :=
  [0, 7, 0x81, 0x80, 0, 0, 0, 1, 0, 0, 0, 0, 0xC0, 0x0C] ++ List.replicate 1010 0

lemma parseNameLoop_selfPointer (fuel pos : ℕ) (out : List UInt8) (len : ℕ) :
    parseNameLoop fuel selfPointer 12 pos out len = .error .fuel := by
  induction fuel with
  | zero => rfl
  | succ fuel ih =>
    have hat : HasAt selfPointer 12 [0xC0, 0x0C] := ⟨List.replicate 1010 0, rfl⟩
    rw [parseNameLoop_pointer hat (by decide)]
    exact ih

/-- However many iterations it is given, `dns_parse_response` does not come to an end on this
packet. -/
theorem endlessResponse : selfPointer.length = 1024 ∧
    ∀ fuel, dnsParseResponse fuel true selfPointer = .error .fuel := by
  refine ⟨by rw [selfPointer, List.length_append, List.length_replicate]; rfl, fun fuel => ?_⟩
  have hqd : loadShort selfPointer 4 = .ok 0 := rfl
  have han : loadShort selfPointer 6 = .ok (htons 1) := rfl
  have hhead : parseHead fuel selfPointer = .ok (0, 1, 12) := by
    rw [parseHead]
    simp only [Nat.zero_add, hqd, ok_bind, Nat.reduceAdd, han]
    rfl
  rw [dnsParseResponse, hhead]
  simp only [ok_bind, if_true, parseAnswers, parseAnswer, dnsParseName, parseNameLoop_selfPointer]
  rfl

end CppExample.Dns
