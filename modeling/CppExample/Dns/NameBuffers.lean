/-
# The arrays of the decoded names

The text of a name is gathered in one of the arrays `aname` and `cname`, of 128 bytes each.  Its
length is never compared with the size of the array, and a legal name may have up to 255 octets.

The names that `dns_parse_response` decodes are those of the records that its cursor comes to.
All of them are stored inside their array, with a NUL behind, exactly if each of them `Fits`, and
a legal name fits exactly if its dotted text has at most 127 bytes, one less if the decoder puts
a dot behind it: `namesFit_iff`.
-/
import CppExample.Dns.Compression
import CppExample.Dns.Fields

namespace CppExample.Dns
open Lib

variable {buf : List UInt8} {p q room fuel : ℕ} {text : List UInt8} {ls : List (List UInt8)}

/-! ## The calls of the decoder -/

/-- The cursor comes to `p` for one of the announced records. -/
def Visited (buf : List UInt8) (p : ℕ) : Prop :=
  ∃ querys answers start k found, Starts buf querys answers start ∧ k < answers ∧
    Rounds buf k start found p

/-- In a run of `dns_parse_response`, `dns_parse_name` is called at `p` for an owner. -/
def OwnerCall (fuel : ℕ) (buf : List UInt8) (p : ℕ) : Prop :=
  ∃ querys answers start k cnt list, parseHead fuel buf = .ok (querys, answers, start) ∧
    k < answers ∧
    parseAnswers fuel buf k start 0 (List.replicate answers DnsItem.null) = .ok (p, cnt, list)

/-- It is called at `p + 12` for a canonical name, behind the owner at `p`. -/
def TargetCall (fuel : ℕ) (buf : List UInt8) (p : ℕ) : Prop :=
  OwnerCall fuel buf p ∧
    (∃ aname len, dnsParseName fuel buf p (List.replicate 128 0) 0 = .ok (aname, len)) ∧
    (∃ type, loadShort buf (p + 2) = .ok type ∧ htons type = dnsCname) ∧
    ∃ datalen, loadShort buf (p + 10) = .ok datalen

/-- What the decoder stores falls inside the array, and there is a NUL behind the text that it
leaves. -/
def NameFits (fuel : ℕ) (buf : List UInt8) (p : ℕ) : Prop :=
  (∀ i, dnsParseName fuel buf p (List.replicate 128 0) 0 ≠ .error (.write i)) ∧
    ∀ out len, dnsParseName fuel buf p (List.replicate 128 0) 0 = .ok (out, len) →
      out[len]? = some 0

/-- This is so for all names that `dns_parse_response` decodes. -/
def NamesFit (buf : List UInt8) : Prop :=
  ∀ fuel p, (OwnerCall fuel buf p → NameFits fuel buf p) ∧
    (TargetCall fuel buf p → NameFits fuel buf (p + 12))

/-- The bytes from the offset on do not spell a text of 128 bytes or more. -/
def Fits (buf : List UInt8) (p : ℕ) : Prop :=
  ¬ Overflows buf p 128 ∧ ∀ text, Spells buf p text → text.length ≠ 128

/-! ## Names that fit -/

lemma Follows.overflows (h : Follows buf p text q) (hroom : room < text.length) :
    Overflows buf p room := by
  refine ⟨[], p, .refl p, Nat.zero_le room, ?_⟩
  cases h with
  | pointer h hp => exact absurd hroom (Nat.not_lt_zero room)
  | @label l next hl h hnext =>
    rw [List.length_nil, Nat.sub_zero]
    by_cases hlabel : room < l.length
    · exact .label hl h hlabel
    · have h0 : next ≠ 0 := by
        rintro rfl
        rw [mark_zero, List.append_nil] at hroom
        exact hlabel hroom
      rw [mark_of_ne_zero h0, List.length_append, List.length_singleton] at hroom
      exact .dot hl h hnext h0 (by omega)

/-- More text than there is room for. -/
lemma Gathers.overflows (h : Gathers buf p text q) (hroom : room < text.length) :
    Overflows buf p room := by
  induction h generalizing room with
  | refl p => exact absurd hroom (Nat.not_lt_zero room)
  | @head p q r t text h rest ih =>
    rw [List.length_append] at hroom
    by_cases ht : t.length ≤ room
    · obtain ⟨text', q', hgathers, hle, hbursts⟩ := ih (show room - t.length < text.length by omega)
      rw [Nat.sub_sub, ← List.length_append] at hbursts
      exact ⟨t ++ text', q', .head h hgathers, by rw [List.length_append]; omega, hbursts⟩
    · exact h.overflows (not_le.1 ht)

/-- A text that there is room for does not overflow it. -/
lemma Spells.not_overflows (h : Spells buf p text) (hroom : text.length ≤ room) :
    ¬ Overflows buf p room := by
  intro hover
  obtain ⟨n, hn⟩ := h.dnsParseName_eq
  obtain ⟨m, i, hm⟩ := hover.dnsParseName_eq
  have heq := (hn (max n m) (le_max_left n m) room hroom).symm.trans
    (hm (max n m) (le_max_right n m))
  cases heq

lemma Spells.fits_iff (h : Spells buf p text) : Fits buf p ↔ text.length ≤ 127 := by
  constructor
  · rintro ⟨hover, hexact⟩
    have hne := hexact text h
    obtain ⟨q, hgathers, -⟩ := h
    by_contra hlong
    exact hover (hgathers.overflows (show 128 < text.length by omega))
  · intro hle
    refine ⟨h.not_overflows (by omega), fun text' h' => ?_⟩
    rw [← h.unique h']
    omega

/-- The decoder on a name that fits, with any budget. -/
lemma Fits.nameFits (h : Fits buf p) (fuel : ℕ) : NameFits fuel buf p := by
  refine ⟨fun i herr => h.1 (overflows_of_dnsParseName herr), fun out len hok => ?_⟩
  obtain ⟨text, hspells, hroom, rfl, rfl⟩ := spells_of_dnsParseName hok
  have hne := h.2 text hspells
  rw [List.getElem?_append_right le_rfl, Nat.sub_self, List.getElem?_replicate,
    if_pos (by omega)]

/-- A name that does not fit is seen not to, with a budget that is large enough. -/
lemma fits_of_nameFits (h : ∃ n, ∀ fuel, n ≤ fuel → NameFits fuel buf p) : Fits buf p := by
  obtain ⟨n, hn⟩ := h
  refine ⟨fun hover => ?_, fun text hspells h128 => ?_⟩
  · obtain ⟨m, i, hm⟩ := hover.dnsParseName_eq
    exact (hn (max n m) (le_max_left n m)).1 i (hm _ (le_max_right n m))
  · obtain ⟨m, hm⟩ := hspells.dnsParseName_eq
    have hnul := (hn (max n m) (le_max_left n m)).2 _ _ (hm _ (le_max_right n m) 128 h128.le)
    rw [h128, List.getElem?_eq_none (by simp [h128])] at hnul
    cases hnul

/-! ## The calls and the records -/

lemma OwnerCall.visited (h : OwnerCall fuel buf p) : Visited buf p := by
  obtain ⟨querys, answers, start, k, cnt, list, hhead, hk, hloop⟩ := h
  obtain ⟨found, hrounds, -, -⟩ := rounds_of_parseAnswers (Nat.zero_le _) hloop
  exact ⟨querys, answers, start, k, found, starts_of_parseHead hhead, hk, hrounds⟩

lemma Visited.ownerCall (h : Visited buf p) : ∃ n, ∀ fuel, n ≤ fuel → OwnerCall fuel buf p := by
  obtain ⟨querys, answers, start, k, found, hstarts, hk, hrounds⟩ := h
  obtain ⟨n, hn⟩ := hstarts.parseHead_eq
  obtain ⟨m, hm⟩ := hrounds.parseAnswers_eq
  refine ⟨max n m, fun fuel hfuel => ?_⟩
  exact ⟨querys, answers, start, k, _, _, hn fuel (le_of_max_le_left hfuel), hk,
    hm fuel (le_of_max_le_right hfuel) [] answers hk.le⟩

lemma TargetCall.head (h : TargetCall fuel buf p) : ∃ text n, Head buf p text dnsCname n := by
  obtain ⟨-, ⟨aname, len, hname⟩, ⟨t, ht, htype⟩, d, hd⟩ := h
  obtain ⟨text, hspells, hroom, -, -⟩ := spells_of_dnsParseName hname
  exact ⟨text, _, hspells, hroom, htype ▸ hasAt_of_loadShort ht, hasAt_of_loadShort hd⟩

lemma Visited.targetCall {n : UInt16} (h : Visited buf p) (head : Head buf p text dnsCname n) :
    ∃ k, ∀ fuel, k ≤ fuel → TargetCall fuel buf p := by
  obtain ⟨k, hk⟩ := h.ownerCall
  obtain ⟨m, hm⟩ := head.owner.dnsParseName_eq
  obtain ⟨t, ht, htype⟩ := loadShort_be16 head.type
  obtain ⟨d, hd, -⟩ := loadShort_be16 head.length
  refine ⟨max k m, fun fuel hfuel => ⟨hk fuel (le_of_max_le_left hfuel), ?_, ⟨t, ht, htype⟩, d, hd⟩⟩
  exact ⟨_, _, hm fuel (le_of_max_le_right hfuel) 128 head.room⟩

/-! ## Legal names -/

/-- The pointers to offsets below 256. -/
def Near (_ : UInt8) (target : ℕ) : Prop := target < 256

/-- What is spelled by a name with such pointers: its text, or its text with a dot behind. -/
lemma NameAt.spells_near (h : NameAt buf Near p ls) :
    Spells buf p (dotted ls) ∨ ls ≠ [] ∧ Spells buf p (dotted ls ++ [dot]) := by
  induction h with
  | root h => exact Or.inl (.root h)
  | @pointer off hi lo ls h hp _ ha rest ih =>
    have htarget : pointerTarget hi lo = lo.toNat := by
      rw [← pointerTarget_mod hi lo, Nat.mod_eq_of_lt ha]
    rw [htarget] at ih
    have hround : ∀ {text}, Spells buf lo.toNat text → Spells buf off text :=
      fun hspells => hspells.head (.pointer h hp)
    exact ih.imp hround (And.imp_right hround)
  | @label off l ls hl h rest ih =>
    obtain ⟨next, hnext⟩ := rest.exists_byte
    have hround := Follows.label hl.taken h hnext
    by_cases hls : ls = []
    · -- the last label: the dot depends on what stands behind it
      subst hls
      have hrest := (ih.resolve_right fun hne => hne.1 rfl).head hround
      rw [dotted_nil, List.append_nil] at hrest
      rw [dotted_singleton]
      by_cases h0 : next = 0
      · rw [h0, mark_zero, List.append_nil] at hrest
        exact Or.inl hrest
      · rw [mark_of_ne_zero h0] at hrest
        exact Or.inr ⟨by simp, hrest⟩
    · have h0 : next ≠ 0 := by
        rintro rfl
        exact hls (rest.eq_nil_of_zero hnext)
      rw [mark_of_ne_zero h0] at hround
      rw [dotted_cons_of_ne_nil l hls]
      rcases ih with hrest | ⟨-, hrest⟩
      · refine Or.inl ?_
        have hspells := hrest.head hround
        rwa [List.append_assoc, List.singleton_append] at hspells
      · refine Or.inr ⟨by simp, ?_⟩
        have hspells := hrest.head hround
        rwa [List.append_assoc, List.singleton_append, ← List.cons_append, ← List.append_assoc]
          at hspells

/-- The room that is needed for a legal name. -/
lemma NameAt.fits_iff (h : NameAt buf Near p ls) :
    (Decodable buf p ls → (Fits buf p ↔ (dotted ls).length ≤ 127)) ∧
      (¬ Decodable buf p ls → (Fits buf p ↔ (dotted ls).length ≤ 126)) := by
  rw [← h.spells_iff]
  refine ⟨Spells.fits_iff, fun hno => ?_⟩
  obtain ⟨-, hdot⟩ := h.spells_near.resolve_left hno
  rw [hdot.fits_iff, List.length_append, List.length_singleton]
  omega

/-- **The names that fit in their arrays.**  Whatever is received, all that is stored of names
falls inside of `aname` and `cname`, with a NUL behind it, exactly if the owners and the
canonical names of the records that the cursor comes to fit.  A legal name does if its dotted
text has at most 127 bytes; 126, if its last label is followed by a pointer. -/
theorem namesFit_iff (buf : List UInt8) :
    (NamesFit buf ↔ ∀ p, Visited buf p →
      Fits buf p ∧ ∀ text n, Head buf p text dnsCname n → Fits buf (p + 12)) ∧
    ∀ p ls, NameAt buf Near p ls →
      (Decodable buf p ls → (Fits buf p ↔ (dotted ls).length ≤ 127)) ∧
      (¬ Decodable buf p ls → (Fits buf p ↔ (dotted ls).length ≤ 126)) := by
  refine ⟨⟨fun h p hvisited => ⟨?_, fun text n head => ?_⟩, fun h fuel p => ⟨fun hcall => ?_,
    fun hcall => ?_⟩⟩, fun p ls hname => hname.fits_iff⟩
  · obtain ⟨k, hk⟩ := hvisited.ownerCall
    exact fits_of_nameFits ⟨k, fun fuel hfuel => (h fuel p).1 (hk fuel hfuel)⟩
  · obtain ⟨k, hk⟩ := hvisited.targetCall head
    exact fits_of_nameFits ⟨k, fun fuel hfuel => (h fuel p).2 (hk fuel hfuel)⟩
  · exact (h p hcall.visited).1.nameFits fuel
  · obtain ⟨text, n, head⟩ := hcall.head
    exact ((h p hcall.1.visited).2 text n head).nameFits fuel

/-- A label of 63 bytes. -/
def longLabel : List UInt8 := List.replicate 63 97

/-- A response with one address for a name of three labels of 63 bytes, which are 193 octets. -/
def longNameMessage : Message where
  id := 7
  flags := 0x8180
  nscount := 0
  arcount := 0
  questions := [⟨[longLabel, longLabel, longLabel], 1, 1⟩]
  answers := [⟨[0xC0, 12], dnsHost, 1, 0, 60, [10, 0, 0, 9], by decide⟩]

lemma labelOk_longLabel : LabelOk longLabel := by
  rw [LabelOk, longLabel, List.length_replicate]
  decide

/-- The names of this response are legal: the one of the question, and the pointer to it. -/
lemma nameAt_longName :
    NameAt longNameMessage.wire Near 12 [longLabel, longLabel, longLabel] ∧
      NameAt longNameMessage.wire Near 209 [longLabel, longLabel, longLabel] := by
  have hname : NameAt longNameMessage.wire Near 12 [longLabel, longLabel, longLabel] := by
    refine .label labelOk_longLabel (by unfold HasAt; decide +kernel) ?_
    refine .label labelOk_longLabel (by unfold HasAt; decide +kernel) ?_
    refine .label labelOk_longLabel (by unfold HasAt; decide +kernel) ?_
    exact .root (by decide +kernel)
  refine ⟨hname, ?_⟩
  exact @NameAt.pointer _ _ _ 0xC0 12 _ (by unfold HasAt; decide +kernel) (by decide) (by decide)
    (by unfold Near; decide) hname

/-- The third label of the owner is written to the bytes from 128 on of `aname`. -/
theorem longNameOverflows :
    longNameMessage.wire.length ≤ 1024 ∧
      (encodeName [longLabel, longLabel, longLabel]).length ≤ 255 ∧
      NameAt longNameMessage.wire Near 209 [longLabel, longLabel, longLabel] ∧
      dnsParseResponse 5 true longNameMessage.buffer = .error (.write 191) ∧
      ¬ NamesFit longNameMessage.buffer := by
  have hname : dnsParseName 5 longNameMessage.buffer 209 (List.replicate 128 0) 0
      = .error (.write 191) := by decide +kernel
  have hcall : OwnerCall 5 longNameMessage.buffer 209 :=
    ⟨1, 1, 209, 0, 0, [DnsItem.null], by decide +kernel, by decide, rfl⟩
  refine ⟨by decide +kernel, by decide +kernel, nameAt_longName.2, by decide +kernel, fun h => ?_⟩
  exact ((h 5 209).1 hcall).1 191 hname

end CppExample.Dns
