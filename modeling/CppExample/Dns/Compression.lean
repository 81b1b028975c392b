/-
# Compressed names

A name of RFC 1035 may end in a pointer to any earlier offset below 2^14.  The decoder uses the
second byte of a pointer only, and it puts a dot behind a label whenever the next byte is not
zero, so also in front of a pointer that leads to the end of the name.

`Decodable` describes the names that are not affected: no pointer is met right behind the last
label, and no offset of 256 or more, unless the bytes at its low byte happen to spell the same
text.  These are exactly the names that come out right: `decodedAs_iff_decodable`.
-/
import CppExample.Dns.Response

namespace CppExample.Dns
open Lib

variable {buf msg : List UInt8} {off : ℕ} {l text : List UInt8} {ls : List (List UInt8)}

/-- Every pointer of RFC 1035. -/
def AnyPointer (_ : UInt8) (_ : ℕ) : Prop := True

/-- Started at the offset with a zeroed array of this size and `*len = 0`, `dns_parse_name`
ends with exactly the text in the array and its length in `*len`. -/
def DecodedAs (buf : List UInt8) (cap off : ℕ) (text : List UInt8) : Prop :=
  ∃ n, ∀ fuel, n ≤ fuel → dnsParseName fuel buf off (List.replicate cap 0) 0
    = .ok (text ++ List.replicate (cap - text.length) 0, text.length)

/-- The names that are decoded as they are meant. -/
inductive Decodable (buf : List UInt8) : ℕ → List (List UInt8) → Prop
  | root {off : ℕ} (h : buf[off]? = some 0) : Decodable buf off []
  /-- The zero byte that ends the name stands right behind the last label. -/
  | label {off : ℕ} {l : List UInt8} {ls : List (List UInt8)} (hl : LabelOk l)
      (h : HasAt buf off (encodeLabel l)) (hlast : ls = [] → buf[off + (1 + l.length)]? = some 0)
      (rest : Decodable buf (off + (1 + l.length)) ls) : Decodable buf off (l :: ls)
  /-- An offset that fits in the second byte of the pointer. -/
  | near {off : ℕ} {hi lo : UInt8} {ls : List (List UInt8)} (h : HasAt buf off [hi, lo])
      (hp : isPointer hi = true) (hnear : pointerTarget hi lo < 256)
      (rest : Decodable buf (pointerTarget hi lo) ls) : Decodable buf off ls
  /-- Any other offset, when the bytes that are taken for the rest of the name spell its text. -/
  | far {off : ℕ} {hi lo : UInt8} {ls : List (List UInt8)} (h : HasAt buf off [hi, lo])
      (hp : isPointer hi = true) (hfar : 256 ≤ pointerTarget hi lo)
      (rest : Spells buf (pointerTarget hi lo % 256) (dotted ls)) : Decodable buf off ls

/-! ## The text that comes out -/

/-- Exactly the text that is spelled comes out. -/
lemma decodedAs_iff_spells {cap : ℕ} (hcap : text.length ≤ cap) :
    DecodedAs buf cap off text ↔ Spells buf off text := by
  constructor
  · rintro ⟨n, hn⟩
    have hrun := hn n le_rfl
    rcases dnsParseName_outcome n buf off cap with
      h | ⟨text', hspells, hroom, h⟩ | ⟨-, i, -, h⟩ | ⟨-, i, h⟩
    · rw [hrun] at h
      cases h
    · rw [hrun] at h
      simp only [Except.ok.injEq, Prod.mk.injEq] at h
      obtain rfl := (List.append_inj h.1 h.2).1
      exact hspells
    · rw [hrun] at h
      cases h
    · rw [hrun] at h
      cases h
  · intro hspells
    obtain ⟨n, hn⟩ := hspells.dnsParseName_eq
    exact ⟨n, fun fuel hfuel => hn fuel hfuel cap hcap⟩

lemma pointerTarget_mod (hi lo : UInt8) : pointerTarget hi lo % 256 = lo.toNat := by
  have hlo := lo.toNat_lt
  rw [pointerTarget]
  omega

/-- A name that starts with a zero byte has no labels. -/
lemma NameAt.eq_nil_of_zero {allowed : UInt8 → ℕ → Prop} (h : NameAt msg allowed off ls)
    (h0 : msg[off]? = some 0) : ls = [] := by
  cases h with
  | root => rfl
  | label hl h _ => exact absurd (Option.some.inj (h.getElem?.symm.trans h0)) hl.ofNat_ne_zero
  | pointer h hp _ _ _ =>
    exact absurd (Option.some.inj (h.getElem?.symm.trans h0)) (isPointer_ne_zero hp)

lemma decodable_label_iff (hl : LabelOk l) (h : HasAt buf off (encodeLabel l)) :
    Decodable buf off (l :: ls) ↔
      (ls = [] → buf[off + (1 + l.length)]? = some 0) ∧
        Decodable buf (off + (1 + l.length)) ls := by
  have hbyte : ∀ {hi lo : UInt8}, HasAt buf off [hi, lo] → isPointer hi = false := by
    intro hi lo hat
    rw [← Option.some.inj (h.getElem?.symm.trans hat.getElem?)]
    exact hl.taken.not_isPointer
  constructor
  · intro hd
    cases hd with
    | label _ _ hlast rest => exact ⟨hlast, rest⟩
    | near hat hp _ _ =>
      rw [hbyte hat] at hp
      cases hp
    | far hat hp _ _ =>
      rw [hbyte hat] at hp
      cases hp
  · rintro ⟨hlast, rest⟩
    exact .label hl h hlast rest

lemma decodable_pointer_iff {hi lo : UInt8} (h : HasAt buf off [hi, lo])
    (hp : isPointer hi = true) :
    Decodable buf off ls ↔
      if pointerTarget hi lo < 256 then Decodable buf (pointerTarget hi lo) ls
      else Spells buf lo.toNat (dotted ls) := by
  have hbyte : ∀ {hi' lo' : UInt8}, HasAt buf off [hi', lo'] → hi' = hi ∧ lo' = lo := by
    intro hi' lo' hat
    have heq := HasAt.unique hat h rfl
    simp only [List.cons.injEq, and_true] at heq
    exact heq
  constructor
  · intro hd
    cases hd with
    | root h0 => exact absurd (Option.some.inj (h.getElem?.symm.trans h0)) (isPointer_ne_zero hp)
    | label hl hat _ _ =>
      have heq := Option.some.inj (h.getElem?.symm.trans hat.getElem?)
      rw [heq, hl.taken.not_isPointer] at hp
      cases hp
    | near hat _ hnear rest =>
      rw [(hbyte hat).1, (hbyte hat).2] at hnear rest
      rw [if_pos hnear]
      exact rest
    | far hat _ hfar rest =>
      rw [(hbyte hat).1, (hbyte hat).2] at hfar rest
      rw [if_neg (not_lt.2 hfar), ← pointerTarget_mod hi lo]
      exact rest
  · intro hd
    split at hd
    · next hnear => exact .near h hp hnear hd
    · next hfar =>
      rw [← pointerTarget_mod hi lo] at hd
      exact .far h hp (not_lt.1 hfar) hd

/-- The bytes of a name spell its dotted text exactly if it is decodable, by induction on the
name. -/
lemma NameAt.spells_iff {allowed : UInt8 → ℕ → Prop} (h : NameAt buf allowed off ls) :
    Spells buf off (dotted ls) ↔ Decodable buf off ls := by
  induction h with
  | root h => exact iff_of_true (.root h) (.root h)
  | @label off l ls hl h rest ih =>
    obtain ⟨next, hnext⟩ := rest.exists_byte
    rw [(Follows.label hl.taken h hnext).spells_iff, decodable_label_iff hl h, hnext,
      Option.some.injEq, ← ih]
    by_cases hls : ls = []
    · -- the last label
      subst hls
      rw [dotted_singleton, dotted_nil]
      constructor
      · rintro ⟨rest, heq, hrest⟩
        rw [List.append_assoc] at heq
        have hnil := List.append_eq_nil_iff.1 (List.self_eq_append_right.1 heq)
        rw [hnil.2] at hrest
        refine ⟨fun _ => ?_, hrest⟩
        by_contra h0
        rw [mark_of_ne_zero h0] at hnil
        exact absurd hnil.1 (by simp)
      · rintro ⟨h0, hrest⟩
        exact ⟨[], by rw [h0 rfl]; simp, hrest⟩
    · have h0 : next ≠ 0 := by
        rintro rfl
        exact hls (rest.eq_nil_of_zero hnext)
      rw [dotted_cons_of_ne_nil l hls, mark_of_ne_zero h0]
      constructor
      · rintro ⟨rest, heq, hrest⟩
        rw [List.append_assoc, List.append_cancel_left_eq, List.singleton_append,
          List.cons_inj_right] at heq
        exact ⟨fun hnil => absurd hnil hls, heq ▸ hrest⟩
      · rintro ⟨-, hrest⟩
        exact ⟨_, by rw [List.append_assoc, List.singleton_append], hrest⟩
  | @pointer off hi lo ls h hp _ _ _ ih =>
    have hspells : Spells buf off (dotted ls) ↔ Spells buf lo.toNat (dotted ls) := by
      rw [(Follows.pointer h hp).spells_iff]
      simp
    rw [hspells, decodable_pointer_iff h hp]
    split
    · next hnear => rw [← ih, ← pointerTarget_mod hi lo, Nat.mod_eq_of_lt hnear]
    · rfl

/-- **The names that are decoded as they are meant.**  In a buffer that begins with a message,
with room for the text of a name of the message, the decoder produces exactly the labels joined
by dots, and their length, if and only if the name is decodable. -/
theorem decodedAs_iff_decodable (h : NameAt msg AnyPointer off ls) (pad : List UInt8) {cap : ℕ}
    (hcap : (dotted ls).length ≤ cap) :
    DecodedAs (msg ++ pad) cap off (dotted ls) ↔ Decodable (msg ++ pad) off ls := by
  have hname : NameAt (msg ++ pad) AnyPointer off ls := h.append pad fun _ _ _ _ _ _ => trivial
  rw [decodedAs_iff_spells hcap, hname.spells_iff]

/-- The name `b.a` of `sampleMessage` is decodable. -/
lemma nameAt_sample_any : NameAt sampleMessage.wire AnyPointer 31 [[98], [97]] := by
  have h := @NameAt.append _ _ AnyPointer _ _ nameAt_sample_target [] fun _ _ _ _ _ _ => trivial
  rwa [List.append_nil] at h

/-- `decodedAs_iff_decodable` for that name, in the receive buffer. -/
theorem decodedAs_sampleTarget :
    DecodedAs (sampleMessage.wire ++ List.replicate 973 0) 128 31 (dotted [[98], [97]]) ↔
      Decodable (sampleMessage.wire ++ List.replicate 973 0) 31 [[98], [97]] :=
  decodedAs_iff_decodable nameAt_sample_any _ (by decide)

/-- The root name, and then the label `a` with a pointer to the root name. -/
def pointerToRoot : List UInt8 := List.replicate 12 0 ++ [0, 1, 97, 0xC0, 12]

/-- The name `a` at offset 256, and a pointer to it. -/
def pointerBeyond : List UInt8 := List.replicate 256 0 ++ [1, 97, 0, 0xC1, 0]

/-- A text for which there is room comes out only once. -/
lemma DecodedAs.unique {text' : List UInt8} {cap : ℕ} (h : DecodedAs buf cap off text)
    (h' : DecodedAs buf cap off text') : text = text' := by
  have heq := eq_of_enough_fuel h h'
  rw [Prod.mk.injEq] at heq
  exact (List.append_inj heq.1 heq.2).1

/-- Two names for which the single label `a` should come out: of the one the text is `a.`, of
the other one it is empty. -/
theorem misdecodedNames :
    (NameAt pointerToRoot AnyPointer 13 [[97]] ∧ DecodedAs pointerToRoot 128 13 [97, dot] ∧
      ¬ DecodedAs pointerToRoot 128 13 (dotted [[97]])) ∧
    (NameAt pointerBeyond AnyPointer 259 [[97]] ∧ DecodedAs pointerBeyond 128 259 [] ∧
      ¬ DecodedAs pointerBeyond 128 259 (dotted [[97]])) := by
  have hlabel : HasAt pointerToRoot 13 (encodeLabel [97]) := by
    unfold HasAt
    decide
  have hroot : HasAt pointerToRoot 15 [0xC0, 12] := by
    unfold HasAt
    decide
  have htext : DecodedAs pointerToRoot 128 13 [97, dot] := by
    refine (decodedAs_iff_spells (by decide)).2 ?_
    have hhead : Follows pointerToRoot 13 ([97] ++ mark 0xC0) 15 :=
      .label (by unfold Taken; decide) hlabel (by decide)
    exact (Spells.head (.pointer hroot (by decide)) (.root (by decide))).head hhead
  have hbeyond : HasAt pointerBeyond 259 [0xC1, 0] := ⟨[], rfl⟩
  have hempty : DecodedAs pointerBeyond 128 259 [] :=
    (decodedAs_iff_spells (by decide)).2 ((Spells.root rfl).head (.pointer hbeyond (by decide)))
  refine ⟨⟨?_, htext, fun h => ?_⟩, ?_, hempty, fun h => ?_⟩
  · refine .label (by unfold LabelOk; decide) hlabel ?_
    exact .pointer hroot (by decide) (by decide) trivial (.root (by decide))
  · exact absurd (h.unique htext) (by decide)
  · refine .pointer hbeyond (by decide) (by decide) trivial ?_
    exact .label (by unfold LabelOk; decide) ⟨[0, 0xC1, 0], rfl⟩ (.root rfl)
  · exact absurd (h.unique hempty) (by decide)

end CppExample.Dns
