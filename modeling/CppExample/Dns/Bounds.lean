/-
# Reads outside of the receive buffer

The parser does not know how much was received, and it does not compare its cursor with the
end of the buffer: the counts of the header, the length bytes of labels and the lengths of the
data move the cursor as far as they say.

All reads are inside the buffer exactly if the announced questions end in it, and each announced
record that the cursor comes to is not `Outside`: `readsInside_iff`.  How long the names are does
not matter here; which of them fit in `aname` and `cname` is another question.
-/
import CppExample.Dns.Reads
import CppExample.Dns.Termination

namespace CppExample.Dns
open Lib

variable {buf : List UInt8} {p q : ℕ}

/-! ## The records that the cursor comes to -/

/-- The bytes lead the decoder out of the buffer. -/
def LeadsOut (buf : List UInt8) (p : ℕ) : Prop :=
  ∃ text q room, Gathers buf p text q ∧ Leaves buf q room

/-- The name of the owner of a record ends, and the fixed fields are inside the buffer. -/
structure Fields (buf : List UInt8) (p : ℕ) (type n : UInt16) : Prop where
  owner : ∃ text, Spells buf p text
  type : HasAt buf (p + 2) (be16 type)
  length : HasAt buf (p + 10) (be16 n)

/-- The cursor goes over the record at `p`. -/
inductive Passes (buf : List UInt8) (p : ℕ) : ℕ → Prop
  | cname {n : UInt16} {target : List UInt8} (fields : Fields buf p dnsCname n)
      (htarget : Spells buf (p + 12) target) : Passes buf p (p + 12 + n.toNat)
  | address (fields : Fields buf p dnsHost 4) (hend : p + 12 + 4 ≤ buf.length) :
      Passes buf p (p + 12 + 4)
  | otherLength {n : UInt16} (fields : Fields buf p dnsHost n) (hn : n.toNat ≠ 4) :
      Passes buf p (p + 12 + n.toNat)
  | otherType {type n : UInt16} (fields : Fields buf p type n) (hcname : type ≠ dnsCname)
      (hhost : type ≠ dnsHost) : Passes buf p (p + 12)

/-- The cursor goes over as many records. -/
inductive Crosses (buf : List UInt8) : ℕ → ℕ → ℕ → Prop
  | zero (p : ℕ) : Crosses buf 0 p p
  | succ {k p q r : ℕ} (h : Passes buf p q) (rest : Crosses buf k q r) : Crosses buf (k + 1) p r

/-- The cursor comes to `p` for one of the announced records. -/
def ComesTo (buf : List UInt8) (p : ℕ) : Prop :=
  ∃ querys answers start k, Starts buf querys answers start ∧ k < answers ∧ Crosses buf k start p

/-- What is read of the record at `p` does not lie inside the buffer. -/
inductive Outside (buf : List UInt8) (p : ℕ) : Prop
  /-- The name of the owner leads out of the buffer. -/
  | owner (h : LeadsOut buf p)
  /-- The fixed fields do. -/
  | fixed {text : List UInt8} (howner : Spells buf p text) (hend : buf.length < p + 12)
  /-- The canonical name does. -/
  | target {n : UInt16} (fields : Fields buf p dnsCname n) (h : LeadsOut buf (p + 12))
  /-- The four bytes of the address do. -/
  | address (fields : Fields buf p dnsHost 4) (hend : buf.length < p + 12 + 4)

/-- A read outside of the buffer. -/
def IsRead (e : Fault) : Prop := ∃ i, e = .read i

/-- A program that fails only by reads, and has no result, fails by a read. -/
lemma FailsOnly.exists_read {α : Type} {x : Except Fault α} (h : FailsOnly IsRead x)
    (hok : ∀ a, x ≠ .ok a) : ∃ i, x = .error (.read i) := by
  cases hx : x with
  | ok a => exact absurd hx (hok a)
  | error e =>
    obtain ⟨i, rfl⟩ := h e hx
    exact ⟨i, rfl⟩

lemma failsOnly_loadShort {allowed : Fault → Prop} {off : ℕ} (h : ∀ e, IsRead e → allowed e) :
    FailsOnly allowed (loadShort buf off) := by
  rw [loadShort]
  refine (failsOnly_load fun _ => h _ ⟨_, rfl⟩).bind fun lo _ => ?_
  exact (failsOnly_load fun _ => h _ ⟨_, rfl⟩).bind fun hi _ => failsOnly_ok _

lemma Spells.nameReads_eq {text : List UInt8} (h : Spells buf p text) :
    ∃ n, ∀ fuel, n ≤ fuel → nameReads fuel buf p = .ok () := by
  obtain ⟨n, hn⟩ := h.dnsParseName_eq
  refine ⟨n, fun fuel hfuel => ?_⟩
  rw [Dns.nameReads_eq (Nat.le_add_left (192 * fuel) text.length),
    hn fuel hfuel _ (Nat.le_add_right _ _)]
  rfl

lemma Leaves.mono {room room' : ℕ} (h : Leaves buf p room) (hle : room ≤ room') :
    Leaves buf p room' := by
  cases h with
  | byte hend => exact .byte hend
  | pointer h hp hend => exact .pointer h hp hend
  | label h h0 hp hend => exact .label h h0 hp hend
  | next hl h hroom hend => exact .next hl h (hroom.trans hle) hend

lemma LeadsOut.nameReads_eq (h : LeadsOut buf p) :
    ∃ n, ∀ fuel, n ≤ fuel → ∃ i, nameReads fuel buf p = .error (.read i) := by
  obtain ⟨text, q, room, hgathers, hleaves⟩ := h
  obtain ⟨n, hn⟩ := hgathers.dnsParseName_eq
  refine ⟨n + 1, fun fuel hfuel => ?_⟩
  obtain ⟨k, rfl⟩ := Nat.exists_eq_add_of_le' hfuel
  -- an array with room for all rounds
  obtain ⟨size, hroom, hmore, henough⟩ : ∃ size, text.length ≤ size ∧
      room ≤ size - text.length ∧ 192 * (k + (n + 1)) ≤ size :=
    ⟨text.length + room + 192 * (k + (n + 1)), by omega, by omega, by omega⟩
  have hrun := hn size hroom (k + 1)
  have hleaves' := hleaves.mono hmore
  rw [← length_text_append hroom] at hleaves'
  obtain ⟨i, -, hi⟩ := hleaves'.parseNameLoop_eq (by simp)
  rw [hi, Nat.add_assoc, Nat.add_comm 1 n] at hrun
  refine ⟨i, ?_⟩
  rw [Dns.nameReads_eq henough, hrun]
  rfl

/-! ## A round -/

/-- What a round of the answer loop reads of the data of a record, at `ptr`. -/
def dataReads (fuel : ℕ) (buffer : List UInt8) (ptr : ℕ) (type : UInt16) (datalen : ℕ) :
    Except Fault ℕ :=
  if type = dnsCname then do
    nameReads fuel buffer ptr
    return ptr + datalen
  else if type = dnsHost then
    if datalen = 4 then do
      let _netip ← slice buffer ptr datalen
      return ptr + datalen
    else
      return ptr + datalen
  else
    return ptr

/-- A round comes to the data when the owner ends and the ten bytes of the fixed fields are
there. -/
lemma answerReads_fields {fuel : ℕ} {type n : UInt16} (hname : nameReads fuel buf p = .ok ())
    (htype : HasAt buf (p + 2) (be16 type)) (hlen : HasAt buf (p + 10) (be16 n)) :
    answerReads fuel buf p = dataReads fuel buf (p + 12) type n.toNat := by
  have hend := hlen.length_le (by simp [be16])
  rw [length_be16] at hend
  obtain ⟨t, ht, rfl⟩ := loadShort_be16 htype
  obtain ⟨d, hd, rfl⟩ := loadShort_be16 hlen
  obtain ⟨c, hc⟩ := @loadShort_of_lt buf (p + 2 + 2) (by omega)
  obtain ⟨l, hl⟩ := @loadShort_of_lt buf (p + 2 + 2 + 2) (by omega)
  rw [answerReads, hname, ok_bind]
  simp only [ht, hc, hl, show p + 2 + 2 + 2 + 4 = p + 10 from rfl, hd, ok_bind]
  rfl

/-- The fixed fields lead out of the buffer. -/
lemma answerReads_short {fuel : ℕ} (hname : nameReads fuel buf p = .ok ())
    (hend : buf.length < p + 12) : ∃ i, answerReads fuel buf p = .error (.read i) := by
  have hlast : ∀ d, loadShort buf (p + 2 + 2 + 2 + 4) ≠ .ok d := by
    intro d hd
    have hle := (hasAt_of_loadShort hd).length_le (by simp [be16])
    rw [length_be16] at hle
    omega
  refine FailsOnly.exists_read ?_ fun q hok => ?_
  · rw [answerReads, hname, ok_bind]
    refine (failsOnly_loadShort fun _ h => h).bind fun t _ => ?_
    refine (failsOnly_loadShort fun _ h => h).bind fun c _ => ?_
    refine (failsOnly_loadShort fun _ h => h).bind fun l _ => ?_
    exact (failsOnly_loadShort fun _ h => h).bind fun d hd => absurd hd (hlast d)
  · rw [answerReads, hname, ok_bind] at hok
    obtain ⟨t, -, hok⟩ := bind_eq_ok.1 hok
    obtain ⟨c, -, hok⟩ := bind_eq_ok.1 hok
    obtain ⟨l, -, hok⟩ := bind_eq_ok.1 hok
    obtain ⟨d, hd, -⟩ := bind_eq_ok.1 hok
    exact hlast d hd

lemma Fields.answerReads_eq {type n : UInt16} (h : Fields buf p type n) :
    ∃ k, ∀ fuel, k ≤ fuel → answerReads fuel buf p = dataReads fuel buf (p + 12) type n.toNat := by
  obtain ⟨⟨text, hspells⟩, htype, hlen⟩ := h
  obtain ⟨k, hk⟩ := hspells.nameReads_eq
  exact ⟨k, fun fuel hfuel => answerReads_fields (hk fuel hfuel) htype hlen⟩

/-- With a budget that is large enough for the names. -/
lemma Passes.answerReads_eq (h : Passes buf p q) :
    ∃ n, ∀ fuel, n ≤ fuel → answerReads fuel buf p = .ok q := by
  cases h with
  | cname fields htarget =>
    obtain ⟨n, hn⟩ := fields.answerReads_eq
    obtain ⟨m, hm⟩ := htarget.nameReads_eq
    refine ⟨max n m, fun fuel hfuel => ?_⟩
    rw [hn fuel (le_of_max_le_left hfuel), dataReads, if_pos rfl,
      hm fuel (le_of_max_le_right hfuel)]
    rfl
  | address fields hend =>
    obtain ⟨n, hn⟩ := fields.answerReads_eq
    obtain ⟨netip, hslice, -⟩ := exists_slice hend
    refine ⟨n, fun fuel hfuel => ?_⟩
    have h4 : (4 : UInt16).toNat = 4 := rfl
    rw [hn fuel hfuel, dataReads, if_neg (by decide), if_pos rfl, h4, if_pos rfl, hslice]
    rfl
  | otherLength fields hn =>
    obtain ⟨n, hn'⟩ := fields.answerReads_eq
    refine ⟨n, fun fuel hfuel => ?_⟩
    rw [hn' fuel hfuel, dataReads, if_neg (by decide), if_pos rfl, if_neg hn]
    rfl
  | otherType fields hcname hhost =>
    obtain ⟨n, hn⟩ := fields.answerReads_eq
    refine ⟨n, fun fuel hfuel => ?_⟩
    rw [hn fuel hfuel, dataReads, if_neg hcname, if_neg hhost]
    rfl

lemma Outside.answerReads_eq (h : Outside buf p) :
    ∃ n, ∀ fuel, n ≤ fuel → ∃ i, answerReads fuel buf p = .error (.read i) := by
  cases h with
  | owner h =>
    obtain ⟨n, hn⟩ := h.nameReads_eq
    refine ⟨n, fun fuel hfuel => ?_⟩
    obtain ⟨i, hi⟩ := hn fuel hfuel
    exact ⟨i, by rw [answerReads, hi]; rfl⟩
  | fixed howner hend =>
    obtain ⟨n, hn⟩ := howner.nameReads_eq
    exact ⟨n, fun fuel hfuel => answerReads_short (hn fuel hfuel) hend⟩
  | target fields h =>
    obtain ⟨n, hn⟩ := fields.answerReads_eq
    obtain ⟨m, hm⟩ := h.nameReads_eq
    refine ⟨max n m, fun fuel hfuel => ?_⟩
    obtain ⟨i, hi⟩ := hm fuel (le_of_max_le_right hfuel)
    refine ⟨i, ?_⟩
    rw [hn fuel (le_of_max_le_left hfuel), dataReads, if_pos rfl, hi]
    rfl
  | address fields hend =>
    obtain ⟨n, hn⟩ := fields.answerReads_eq
    refine ⟨n, fun fuel hfuel => ⟨p + 12 + 4, ?_⟩⟩
    have h4 : (4 : UInt16).toNat = 4 := rfl
    rw [hn fuel hfuel, dataReads, if_neg (by decide), if_pos rfl, h4, if_pos rfl, slice,
      if_neg (not_le.2 hend)]
    rfl

/-! ## The loops -/

lemma SkipsName.failsOnly (h : SkipsName buf p q) (fuel : ℕ) :
    FailsOnly (· = .fuel) (skipName fuel buf p) := by
  induction h generalizing fuel with
  | root h =>
    cases fuel with
    | zero => exact fun e he => (Except.error.inj he).symm
    | succ fuel =>
      rw [skipName, load_of_getElem? h]
      exact failsOnly_ok _
  | label h h0 rest ih =>
    cases fuel with
    | zero => exact fun e he => (Except.error.inj he).symm
    | succ fuel =>
      rw [skipName, load_of_getElem? h, ok_bind]
      simp only [h0, if_false]
      exact ih fuel

lemma Skips.failsOnly {k : ℕ} (h : Skips buf k p q) (fuel : ℕ) :
    FailsOnly (· = .fuel) (skipQuestions fuel buf k p) := by
  induction h with
  | zero p => exact failsOnly_ok _
  | succ h rest ih =>
    rw [skipQuestions]
    refine (h.failsOnly fuel).bind fun ptr hptr => ?_
    obtain rfl := (skipsName_of_skipName hptr).unique h
    exact ih

/-- When the questions end inside the buffer, the head of the response can only run out of
budget. -/
lemma Starts.failsOnly {querys answers start : ℕ} (h : Starts buf querys answers start)
    (fuel : ℕ) : FailsOnly (· = .fuel) (parseHead fuel buf) := by
  obtain ⟨⟨qd, hqd, rfl⟩, ⟨an, han, rfl⟩, hskips⟩ := h
  obtain ⟨a, ha, rfl⟩ := loadShort_be16 han
  obtain ⟨d, hd, rfl⟩ := loadShort_be16 hqd
  rw [parseHead]
  simp only [Nat.zero_add, Nat.reduceAdd, hd, ha, ok_bind]
  exact (hskips.failsOnly fuel).bind fun _ _ => failsOnly_ok _

lemma Crosses.answersReads_eq {k : ℕ} (h : Crosses buf k p q) :
    ∃ n, ∀ fuel, n ≤ fuel → ∀ m, answersReads fuel buf (k + m) p = answersReads fuel buf m q := by
  induction h with
  | zero p => exact ⟨0, fun fuel _ m => by rw [Nat.zero_add]⟩
  | succ h rest ih =>
    obtain ⟨n, hn⟩ := h.answerReads_eq
    obtain ⟨m, hm⟩ := ih
    refine ⟨max n m, fun fuel hfuel l => ?_⟩
    rw [Nat.succ_add, answersReads, hn fuel (le_of_max_le_left hfuel), ok_bind]
    exact hm fuel (le_of_max_le_right hfuel) l

/-- The answer loop comes to a record that is not inside the buffer. -/
lemma ComesTo.exists_read (h : ComesTo buf p) (hout : Outside buf p) :
    ∃ fuel i, responseReads fuel true buf = .error (.read i) := by
  obtain ⟨querys, answers, start, k, hstarts, hk, hcrosses⟩ := h
  obtain ⟨n, hn⟩ := hstarts.parseHead_eq
  obtain ⟨m, hm⟩ := hcrosses.answersReads_eq
  obtain ⟨l, hl⟩ := hout.answerReads_eq
  obtain ⟨j, rfl⟩ := Nat.exists_eq_add_of_lt hk
  have hnm : max n m ≤ max (max n m) l := le_max_left _ _
  obtain ⟨i, hi⟩ := hl (max (max n m) l) (le_max_right _ _)
  refine ⟨max (max n m) l, i, ?_⟩
  rw [responseReads, hn _ (le_of_max_le_left hnm), ok_bind]
  simp only [if_true]
  rw [Nat.add_assoc, hm _ (le_of_max_le_right hnm), answersReads, hi]
  rfl

/-- A response whose first answer has an owner of three labels of 63 bytes, for which `aname` has no
room, and claims to have 1012 bytes of data. -/
def longOwner : List UInt8 :=
  [0, 7, 0x81, 0x80, 0, 1, 0, 2, 0, 0, 0, 0]
    ++ encodeName [List.replicate 63 97, List.replicate 63 97, List.replicate 63 97] ++ [0, 1, 0, 1]
    ++ [0xC0, 12, 0, 1, 0, 1, 0, 0, 0, 60, 3, 0xF4] ++ List.replicate 803 0

/-- What is written behind `aname` does not keep the decoder from the read at offset 1233. -/
example : longOwner.length = 1024 ∧ dnsParseResponse 5 true longOwner = .error (.write 191) ∧
    responseReads 5 true longOwner = .error (.read 1233) := by
  decide +kernel

end CppExample.Dns
