/-
# Names on the wire

`NameAt msg allowed off ls` says that a name in the sense of RFC 1035 starts at offset
`off` of the message and stands for the labels `ls`: labels of 1 to 63 bytes, ended by a
zero byte or by a pointer to an earlier offset of the message.  The argument `allowed`
restricts the pointers that may occur.

`dns_parse_name` uses only the low byte of a pointer and decides from the byte behind a
label whether a dot is due.  It is therefore right for the pointers of `Plain`: those with
first byte `C0` that do not point at a zero byte.  This is `dnsParseName_spelled`, for all
names that the decoder meets so.
-/
import CppExample.Dns.Decoder

namespace CppExample.Dns
open Lib

/-- A label has 1 to 63 bytes. -/
def LabelOk (l : List UInt8) : Prop := 1 ≤ l.length ∧ l.length ≤ 63

/-- The labels of a name joined by single dots. -/
def dotted (labels : List (List UInt8)) : List UInt8 := [dot].intercalate labels

/-- The uncompressed encoding of a name. -/
def encodeName (labels : List (List UInt8)) : List UInt8 := labels.flatMap encodeLabel ++ [0]

/-- The 14-bit offset of a pointer. -/
def pointerTarget (hi lo : UInt8) : ℕ := hi.toNat % 64 * 256 + lo.toNat

/-- A name that starts at an offset of the message. -/
inductive NameAt (msg : List UInt8) (allowed : UInt8 → ℕ → Prop) :
    ℕ → List (List UInt8) → Prop
  /-- The zero byte ends a name. -/
  | root {off : ℕ} (h : msg[off]? = some 0) : NameAt msg allowed off []
  /-- A label, and the rest of the name right behind it. -/
  | label {off : ℕ} {l : List UInt8} {ls : List (List UInt8)} (hl : LabelOk l)
      (h : HasAt msg off (encodeLabel l)) (rest : NameAt msg allowed (off + (1 + l.length)) ls) :
      NameAt msg allowed off (l :: ls)
  /-- A pointer to an earlier offset, where the rest of the name is. -/
  | pointer {off : ℕ} {hi lo : UInt8} {ls : List (List UInt8)} (h : HasAt msg off [hi, lo])
      (hp : isPointer hi = true) (hlt : pointerTarget hi lo < off)
      (ha : allowed hi (pointerTarget hi lo))
      (rest : NameAt msg allowed (pointerTarget hi lo) ls) : NameAt msg allowed off ls

/-- The pointers that `dns_parse_name` follows as they are meant: the offset fits in the
second byte, and there is no zero byte at it. -/
def Plain (msg : List UInt8) (hi : UInt8) (target : ℕ) : Prop :=
  hi = 0xC0 ∧ msg[target]? ≠ some 0

/-! ## Small facts -/

lemma dotted_nil : dotted [] = [] := rfl

lemma dotted_singleton (l : List UInt8) : dotted [l] = l := by
  simp [dotted, List.intercalate]

lemma dotted_cons_of_ne_nil (l : List UInt8) {ls : List (List UInt8)} (h : ls ≠ []) :
    dotted (l :: ls) = l ++ dot :: dotted ls := by
  obtain ⟨m, ms, rfl⟩ := List.exists_cons_of_ne_nil h
  simp [dotted, List.intercalate, List.intersperse]

/-- The decoder takes a label for a label. -/
lemma LabelOk.taken {l : List UInt8} (h : LabelOk l) : Taken l := by
  have hle := h.2
  exact ⟨h.1, by omega⟩

lemma LabelOk.toNat {l : List UInt8} (h : LabelOk l) :
    (UInt8.ofNat l.length).toNat = l.length := h.taken.toNat

lemma LabelOk.ne_nil {l : List UInt8} (h : LabelOk l) : l ≠ [] := h.taken.ne_nil

lemma LabelOk.ofNat_ne_zero {l : List UInt8} (h : LabelOk l) : UInt8.ofNat l.length ≠ 0 :=
  h.taken.ofNat_ne_zero

lemma pointerTarget_of_plain {msg : List UInt8} {hi lo : UInt8} {t : ℕ}
    (h : Plain msg hi t) : pointerTarget hi lo = lo.toNat := by
  rw [pointerTarget, h.1, show (0xC0 : UInt8).toNat % 64 = 0 from rfl, Nat.zero_mul,
    Nat.zero_add]

/-- A plain pointer, by its second byte. -/
lemma NameAt.plain {msg : List UInt8} {off : ℕ} {ls : List (List UInt8)} (lo : UInt8)
    (h : HasAt msg off [0xC0, lo]) (hlt : lo.toNat < off) (h0 : msg[lo.toNat]? ≠ some 0)
    (rest : NameAt msg (Plain msg) lo.toNat ls) : NameAt msg (Plain msg) off ls := by
  have htarget : pointerTarget 0xC0 lo = lo.toNat := pointerTarget_of_plain ⟨rfl, h0⟩
  rw [← htarget] at hlt h0 rest
  exact .pointer h (by decide) hlt ⟨rfl, h0⟩ rest

/-- There is a byte at the start of a name. -/
lemma NameAt.exists_byte {msg : List UInt8} {allowed : UInt8 → ℕ → Prop} {off : ℕ}
    {ls : List (List UInt8)} (h : NameAt msg allowed off ls) : ∃ b, msg[off]? = some b := by
  cases h with
  | root h => exact ⟨0, h⟩
  | label _ h _ => exact ⟨_, h.getElem?⟩
  | pointer h _ _ _ _ => exact ⟨_, h.getElem?⟩

/-- A name stays where it is when the message is part of a longer buffer, if its pointers are
still allowed there. -/
lemma NameAt.append {msg : List UInt8} {allowed allowed' : UInt8 → ℕ → Prop} {off : ℕ}
    {ls : List (List UInt8)} (h : NameAt msg allowed off ls) (pad : List UInt8)
    (hallowed : ∀ hi t b, msg[t]? = some b → (msg ++ pad)[t]? = some b → allowed hi t →
      allowed' hi t) : NameAt (msg ++ pad) allowed' off ls := by
  have hget : ∀ {i : ℕ} {b : UInt8}, msg[i]? = some b → (msg ++ pad)[i]? = some b := by
    intro i b hb
    rw [List.getElem?_append_left (List.getElem?_eq_some_iff.1 hb).1]
    exact hb
  induction h with
  | root h => exact .root (hget h)
  | label hl h _ ih => exact .label hl (h.append_right (by simp [encodeLabel]) pad) ih
  | pointer h hp hlt ha rest ih =>
    obtain ⟨b, hb⟩ := rest.exists_byte
    exact .pointer (h.append_right (by simp) pad) hp hlt (hallowed _ _ b hb (hget hb) ha) ih

/-- The same for the pointers of `Plain`. -/
lemma NameAt.append_right {msg : List UInt8} {off : ℕ} {ls : List (List UInt8)}
    (h : NameAt msg (Plain msg) off ls) (pad : List UInt8) :
    NameAt (msg ++ pad) (Plain (msg ++ pad)) off ls := by
  refine h.append pad fun hi t b hb hb' ha => ⟨ha.1, ?_⟩
  rw [hb', ← hb]
  exact ha.2

/-! ## The bytes that the decoder follows -/

/-- The decoder, started at the offset, meets these labels, and no pointer to a zero byte. -/
inductive Spelled (buf : List UInt8) : ℕ → List (List UInt8) → Prop
  | root {off : ℕ} (h : buf[off]? = some 0) : Spelled buf off []
  | label {off : ℕ} {l : List UInt8} {ls : List (List UInt8)} (hl : LabelOk l)
      (h : HasAt buf off (encodeLabel l)) (rest : Spelled buf (off + (1 + l.length)) ls) :
      Spelled buf off (l :: ls)
  | pointer {off : ℕ} {hi lo : UInt8} {ls : List (List UInt8)} (h : HasAt buf off [hi, lo])
      (hp : isPointer hi = true) (h0 : buf[lo.toNat]? ≠ some 0)
      (rest : Spelled buf lo.toNat ls) : Spelled buf off ls

lemma NameAt.spelled {msg : List UInt8} {off : ℕ} {ls : List (List UInt8)}
    (h : NameAt msg (Plain msg) off ls) : Spelled msg off ls := by
  induction h with
  | root h => exact .root h
  | label hl h _ ih => exact .label hl h ih
  | pointer h hp hlt ha _ ih =>
    have h0 := ha.2
    rw [pointerTarget_of_plain ha] at h0 ih
    exact .pointer h hp h0 ih

/-- A name begins with a zero byte exactly when it has no labels. -/
lemma Spelled.zero_iff {buf : List UInt8} {off : ℕ} {ls : List (List UInt8)}
    (h : Spelled buf off ls) : buf[off]? = some 0 ↔ ls = [] := by
  induction h with
  | root h => simp [h]
  | label hl h _ _ =>
    have hb := h.getElem?
    constructor
    · intro h0
      rw [h0, Option.some.injEq] at hb
      exact absurd hb.symm hl.ofNat_ne_zero
    · intro h0
      exact absurd h0 (by simp)
  | pointer h hp h0 _ ih =>
    have hb := h.getElem?
    constructor
    · intro hz
      rw [hz, Option.some.injEq] at hb
      exact absurd hb.symm (isPointer_ne_zero hp)
    · intro hnil
      exact absurd (ih.2 hnil) h0

lemma Spelled.exists_byte {buf : List UInt8} {off : ℕ} {ls : List (List UInt8)}
    (h : Spelled buf off ls) : ∃ b, buf[off]? = some b := by
  cases h with
  | root h => exact ⟨0, h⟩
  | label _ h _ => exact ⟨_, h.getElem?⟩
  | pointer h _ _ _ => exact ⟨_, h.getElem?⟩

/-! ## The decoder on a name -/

/-- The bytes spell the dotted text. -/
lemma Spelled.spells {buf : List UInt8} {off : ℕ} {ls : List (List UInt8)}
    (h : Spelled buf off ls) : Spells buf off (dotted ls) := by
  induction h with
  | root h => exact .root h
  | pointer h hp h0 rest ih => exact ih.head (.pointer h hp)
  | @label off l ls hl h rest ih =>
    obtain ⟨next, hnext⟩ := rest.exists_byte
    have hz : next = 0 ↔ ls = [] := by
      rw [← rest.zero_iff, hnext, Option.some.injEq]
    have hhead := ih.head (.label hl.taken h hnext)
    by_cases hls : ls = []
    · rw [hz.2 hls, mark_zero, hls, dotted_nil, List.append_nil, List.append_nil] at hhead
      rw [hls, dotted_singleton]
      exact hhead
    · rw [mark_of_ne_zero fun h => hls (hz.1 h), List.append_assoc] at hhead
      rw [dotted_cons_of_ne_nil l hls]
      exact hhead

/-- **The decoder is right on such names.**  Started with a zeroed array and `*len = 0`,
`dns_parse_name` ends with the dotted text in the array and its length in `*len`, for every
budget from some number of rounds on. -/
theorem dnsParseName_spelled {msg : List UInt8} {off : ℕ} {ls : List (List UInt8)}
    (h : Spelled msg off ls) :
    ∃ n, ∀ fuel, n ≤ fuel → ∀ cap, (dotted ls).length ≤ cap →
      dnsParseName fuel msg off (List.replicate cap 0) 0
        = .ok (dotted ls ++ List.replicate (cap - (dotted ls).length) 0, (dotted ls).length) :=
  h.spells.dnsParseName_eq

end CppExample.Dns
