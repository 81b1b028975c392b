/-
# The name decoder on any bytes

The loop of `dns_parse_name` takes a byte for the end of a name when it is zero, for a pointer
when its two high bits are set, and for the length of a label otherwise.  `Follows` is one round
on bytes that lie inside the buffer, with the text that is written, and `Gathers` a sequence of
rounds.

A run of the loop gathers some text, and then it ends at a zero byte, leaves the buffer, or has
no room for a label; or it uses up its budget.  This is `parseNameLoop_outcome`.  Each of the
three ends is reached, with a budget that is large enough, whenever the bytes lead to it.
-/
import CppExample.Dns.Model

namespace CppExample.Dns
open Lib

variable {buf : List UInt8} {p q : ℕ} {text : List UInt8}

/-! ## Labels and pointers -/

/-- A label with its length byte in front. -/
def encodeLabel (l : List UInt8) : List UInt8 := UInt8.ofNat l.length :: l

lemma length_encodeLabel (l : List UInt8) : (encodeLabel l).length = 1 + l.length := by
  rw [encodeLabel, List.length_cons, Nat.add_comm]

/-- A label that the decoder takes for one: its length byte is neither zero nor a pointer. -/
def Taken (l : List UInt8) : Prop := 1 ≤ l.length ∧ l.length < 192

lemma isPointer_ofNat_iff {n : ℕ} (h : n < 256) : isPointer (UInt8.ofNat n) = true ↔ 192 ≤ n := by
  have hall : ∀ n < 256, isPointer (UInt8.ofNat n) = true ↔ 192 ≤ n := by decide +kernel
  exact hall n h

lemma isPointer_iff (b : UInt8) : isPointer b = true ↔ 192 ≤ b.toNat := by
  have h := isPointer_ofNat_iff b.toNat_lt
  rwa [UInt8.ofNat_toNat] at h

lemma isPointer_ne_zero {b : UInt8} (h : isPointer b = true) : b ≠ 0 := by
  rintro rfl
  simp [isPointer] at h

section Taken

variable {l : List UInt8}

lemma Taken.toNat (h : Taken l) : (UInt8.ofNat l.length).toNat = l.length := by
  have hlt := h.2
  rw [UInt8.toNat_ofNat', Nat.mod_eq_of_lt (by omega)]

lemma Taken.ofNat_ne_zero (h : Taken l) : UInt8.ofNat l.length ≠ 0 := by
  intro h0
  have h1 := congrArg UInt8.toNat h0
  rw [h.toNat] at h1
  exact absurd h1 (Nat.ne_of_gt h.1)

lemma Taken.not_isPointer (h : Taken l) : isPointer (UInt8.ofNat l.length) = false := by
  have hlt := h.2
  rw [← Bool.not_eq_true, isPointer_ofNat_iff (by omega)]
  omega

lemma Taken.ne_nil (h : Taken l) : l ≠ [] := List.ne_nil_of_length_pos h.1

/-- A byte that is neither zero nor a pointer is the length byte of what stands behind it, when
there is enough behind it. -/
lemma exists_taken {flag : UInt8} (hflag : buf[p]? = some flag) (h0 : flag ≠ 0)
    (hp : isPointer flag = false) (hend : p + (1 + flag.toNat) ≤ buf.length) :
    ∃ l, Taken l ∧ HasAt buf p (encodeLabel l) ∧ l.length = flag.toNat := by
  obtain ⟨l, hslice, hlen⟩ := @exists_slice _ buf (p + 1) flag.toNat (by omega)
  have hpos : flag.toNat ≠ 0 := fun h => h0 (UInt8.toNat_inj.1 h)
  have hlt : ¬ 192 ≤ flag.toNat := by
    rw [← isPointer_iff, hp]
    exact Bool.false_ne_true
  refine ⟨l, ⟨by omega, by omega⟩, hasAt_cons_iff.2 ⟨?_, hasAt_of_slice hslice⟩, hlen⟩
  rw [hflag, hlen, UInt8.ofNat_toNat]

end Taken

/-- What is written behind a label in front of this byte. -/
def mark (next : UInt8) : List UInt8 := if next = 0 then [] else [dot]

@[simp] lemma mark_zero : mark 0 = [] := rfl

lemma mark_of_ne_zero {next : UInt8} (h : next ≠ 0) : mark next = [dot] := if_neg h

lemma length_mark_le (next : UInt8) : (mark next).length ≤ 1 := by
  rw [mark]
  split <;> simp

/-! ## One round of the loop -/

/-- One round on a zero byte. -/
lemma parseNameLoop_root (h : buf[p]? = some 0) (fuel pos : ℕ) (out : List UInt8) (len : ℕ) :
    parseNameLoop (fuel + 1) buf p pos out len = .ok (out, len) := by
  rw [parseNameLoop, load_of_getElem? h]
  rfl

/-- One round on a pointer. -/
lemma parseNameLoop_pointer {hi lo : UInt8} (h : HasAt buf p [hi, lo]) (hp : isPointer hi = true)
    (fuel pos : ℕ) (out : List UInt8) (len : ℕ) :
    parseNameLoop (fuel + 1) buf p pos out len = parseNameLoop fuel buf lo.toNat pos out len := by
  have hlo : buf[p + 1]? = some lo := (hasAt_cons_iff.1 h).2.getElem?
  rw [parseNameLoop, load_of_getElem? h.getElem?, load_of_getElem? hlo]
  simp [bind, Except.bind, hp, isPointer_ne_zero hp]

/-- One round on a label, whatever room is left and whatever stands behind it. -/
lemma parseNameLoop_label {l : List UInt8} (hl : Taken l) (h : HasAt buf p (encodeLabel l))
    (fuel pos : ℕ) (out : List UInt8) (len : ℕ) :
    parseNameLoop (fuel + 1) buf p pos out len = (do
      let out ← store out pos l
      let next ← load buf (p + (1 + l.length))
      if next ≠ 0 then
        let out ← store out (pos + l.length) [dot]
        parseNameLoop fuel buf (p + (1 + l.length)) (pos + l.length + 1) out (len + l.length + 1)
      else
        parseNameLoop fuel buf (p + (1 + l.length)) (pos + l.length) out (len + l.length)) := by
  obtain ⟨hflag, hbytes⟩ := hasAt_cons_iff.1 h
  have hslice : slice buf (p + 1) l.length = .ok l := hbytes.slice hl.ne_nil
  rw [parseNameLoop, load_of_getElem? hflag]
  simp only [ok_bind, hl.ofNat_ne_zero, if_false, hl.not_isPointer, Bool.false_eq_true, hslice,
    hl.toNat, Nat.add_assoc]

/-- One round of the decoder from an offset: the text that it writes, and where it goes on. -/
inductive Follows (buf : List UInt8) : ℕ → List UInt8 → ℕ → Prop
  /-- Of a pointer only the second byte is used. -/
  | pointer {p : ℕ} {hi lo : UInt8} (h : HasAt buf p [hi, lo]) (hp : isPointer hi = true) :
      Follows buf p [] lo.toNat
  /-- A label, and a dot if the byte behind it is not zero. -/
  | label {p : ℕ} {l : List UInt8} {next : UInt8} (hl : Taken l) (h : HasAt buf p (encodeLabel l))
      (hnext : buf[p + (1 + l.length)]? = some next) :
      Follows buf p (l ++ mark next) (p + (1 + l.length))

/-- At most 192 bytes are written in one round. -/
lemma Follows.length_le (h : Follows buf p text q) : text.length ≤ 192 := by
  cases h with
  | pointer => simp
  | @label l next hl _ _ =>
    have hlt := hl.2
    have hmark := length_mark_le next
    rw [List.length_append]
    omega

/-- A round with room for what it writes. -/
lemma Follows.parseNameLoop_eq (h : Follows buf p text q) {pos : ℕ} {out : List UInt8}
    (hroom : pos + text.length ≤ out.length) :
    ∃ out', store out pos text = .ok out' ∧ out'.length = out.length ∧ ∀ fuel len,
      parseNameLoop (fuel + 1) buf p pos out len
        = parseNameLoop fuel buf q (pos + text.length) out' (len + text.length) := by
  obtain ⟨out', hout', hlen'⟩ := exists_store hroom
  refine ⟨out', hout', hlen', fun fuel len => ?_⟩
  cases h with
  | pointer h hp =>
    rw [store_nil (by simpa using hroom)] at hout'
    obtain rfl := Except.ok.inj hout'
    exact parseNameLoop_pointer h hp fuel pos out len
  | @label l next hl h hnext =>
    rw [List.length_append] at hroom ⊢
    obtain ⟨out₁, hout₁, hlen₁⟩ := @exists_store _ out l pos (by omega)
    rw [parseNameLoop_label hl h, hout₁, ok_bind, load_of_getElem? hnext, ok_bind]
    by_cases h0 : next = 0
    · rw [h0, mark_zero, List.append_nil] at hout'
      obtain rfl := Except.ok.inj (hout₁.symm.trans hout')
      simp [h0]
    · rw [mark_of_ne_zero h0] at hout' hroom ⊢
      obtain ⟨out₂, hout₂, -⟩ := @exists_store _ out₁ [dot] (pos + l.length) (by omega)
      obtain rfl := Except.ok.inj ((store_store hout₁ hout₂).symm.trans hout')
      rw [if_pos h0, hout₂, ok_bind, List.length_singleton, Nat.add_assoc, Nat.add_assoc]

/-- A round depends on the bytes alone. -/
lemma Follows.unique {text' : List UInt8} {q' : ℕ} (h : Follows buf p text q)
    (h' : Follows buf p text' q') : text = text' ∧ q = q' := by
  cases h with
  | pointer h hp =>
    cases h' with
    | pointer h' hp' =>
      have heq := HasAt.unique h h' rfl
      simp only [List.cons.injEq, and_true] at heq
      exact ⟨rfl, by rw [heq.2]⟩
    | label hl h' hnext =>
      have heq := h.getElem?.symm.trans h'.getElem?
      rw [Option.some.inj heq, hl.not_isPointer] at hp
      cases hp
  | @label l next hl h hnext =>
    cases h' with
    | pointer h' hp =>
      have heq := h.getElem?.symm.trans h'.getElem?
      rw [← Option.some.inj heq, hl.not_isPointer] at hp
      cases hp
    | @label l' next' hl' h' hnext' =>
      have heq := congrArg UInt8.toNat (Option.some.inj (h.getElem?.symm.trans h'.getElem?))
      rw [hl.toNat, hl'.toNat] at heq
      have hcons := HasAt.unique h h' (by rw [length_encodeLabel, length_encodeLabel, heq])
      obtain rfl : l = l' := (List.cons.inj hcons).2
      obtain rfl := Option.some.inj (hnext.symm.trans hnext')
      exact ⟨rfl, rfl⟩

/-- On a zero byte there is no round. -/
lemma Follows.ne_zero (h : Follows buf p text q) : buf[p]? ≠ some 0 := by
  intro h0
  cases h with
  | pointer h hp => exact isPointer_ne_zero hp (Option.some.inj (h.getElem?.symm.trans h0))
  | label hl h hnext => exact hl.ofNat_ne_zero (Option.some.inj (h.getElem?.symm.trans h0))

/-! ## Several rounds -/

/-- The rounds of the decoder from one offset to another, with the text that they write. -/
inductive Gathers (buf : List UInt8) : ℕ → List UInt8 → ℕ → Prop
  | refl (p : ℕ) : Gathers buf p [] p
  | head {p q r : ℕ} {t text : List UInt8} (h : Follows buf p t q) (rest : Gathers buf q text r) :
      Gathers buf p (t ++ text) r

/-- As many rounds, with room for what they write. -/
lemma Gathers.parseNameLoop_eq (h : Gathers buf p text q) :
    ∃ n, ∀ pos out, pos + text.length ≤ out.length → ∃ out', store out pos text = .ok out' ∧
      ∀ fuel len, parseNameLoop (fuel + n) buf p pos out len
        = parseNameLoop fuel buf q (pos + text.length) out' (len + text.length) := by
  induction h with
  | refl p =>
    refine ⟨0, fun pos out hroom => ⟨out, store_nil (by simpa using hroom), fun fuel len => rfl⟩⟩
  | @head p q r t text h rest ih =>
    obtain ⟨n, hn⟩ := ih
    refine ⟨n + 1, fun pos out hroom => ?_⟩
    rw [List.length_append] at hroom
    obtain ⟨out₁, hout₁, hlen₁, heq₁⟩ := @Follows.parseNameLoop_eq _ _ _ _ h pos out (by omega)
    obtain ⟨out₂, hout₂, heq₂⟩ := hn (pos + t.length) out₁ (by omega)
    refine ⟨out₂, store_store hout₁ hout₂, fun fuel len => ?_⟩
    rw [← Nat.add_assoc, heq₁, heq₂, List.length_append, Nat.add_assoc, Nat.add_assoc]

/-- The bytes from the offset on spell the text: the decoder gathers it on its way to a zero
byte. -/
def Spells (buf : List UInt8) (p : ℕ) (text : List UInt8) : Prop :=
  ∃ q, Gathers buf p text q ∧ buf[q]? = some 0

lemma Spells.root (h : buf[p]? = some 0) : Spells buf p [] := ⟨p, .refl p, h⟩

lemma Spells.head {t : List UInt8} (h : Follows buf p t q) (rest : Spells buf q text) :
    Spells buf p (t ++ text) := by
  obtain ⟨r, hrest, h0⟩ := rest
  exact ⟨r, .head h hrest, h0⟩

/-- What is spelled from a zero byte on. -/
lemma spells_iff_of_zero (h : buf[p]? = some 0) : Spells buf p text ↔ text = [] := by
  constructor
  · rintro ⟨q, hgathers, -⟩
    cases hgathers with
    | refl => rfl
    | head hfollows => exact absurd h hfollows.ne_zero
  · rintro rfl
    exact .root h

/-- What is spelled from an offset on where there is a round of the decoder. -/
lemma Follows.spells_iff {t : List UInt8} (h : Follows buf p t q) :
    Spells buf p text ↔ ∃ rest, text = t ++ rest ∧ Spells buf q rest := by
  constructor
  · rintro ⟨r, hgathers, h0⟩
    cases hgathers with
    | refl => exact absurd h0 h.ne_zero
    | head hfollows hrest =>
      obtain ⟨rfl, rfl⟩ := h.unique hfollows
      exact ⟨_, rfl, r, hrest, h0⟩
  · rintro ⟨rest, rfl, hrest⟩
    exact hrest.head h

/-- The text that is spelled is not shorter than its first label. -/
lemma Spells.toNat_le_length {flag : UInt8} (h : Spells buf p text) (hflag : buf[p]? = some flag)
    (h0 : flag ≠ 0) (hp : isPointer flag = false) : flag.toNat ≤ text.length := by
  obtain ⟨q, hgathers, hzero⟩ := h
  cases hgathers with
  | refl => exact absurd (Option.some.inj (hflag.symm.trans hzero)) h0
  | head hround rest =>
    cases hround with
    | pointer hat hp' =>
      rw [Option.some.inj (hflag.symm.trans hat.getElem?), hp'] at hp
      cases hp
    | label hl hat hnext =>
      rw [Option.some.inj (hflag.symm.trans hat.getElem?), hl.toNat, List.length_append,
        List.length_append]
      omega

/-! ## The end of a run -/

/-- The next round reads outside the buffer, when there is this much room for what it writes. -/
inductive Leaves (buf : List UInt8) (p room : ℕ) : Prop
  /-- The offset is outside. -/
  | byte (hend : buf.length ≤ p)
  /-- The first byte of a pointer is the last one of the buffer. -/
  | pointer {hi : UInt8} (h : buf[p]? = some hi) (hp : isPointer hi = true)
      (hend : buf.length ≤ p + 1)
  /-- A label is longer than the rest of the buffer. -/
  | label {flag : UInt8} (h : buf[p]? = some flag) (h0 : flag ≠ 0) (hp : isPointer flag = false)
      (hend : buf.length < p + (1 + flag.toNat))
  /-- A label fills the buffer up to its end, so that there is no byte behind it. -/
  | next {l : List UInt8} (hl : Taken l) (h : HasAt buf p (encodeLabel l))
      (hroom : l.length ≤ room) (hend : buf.length ≤ p + (1 + l.length))

/-- There is not that much room for the label at the offset and the dot behind it. -/
inductive Bursts (buf : List UInt8) (p room : ℕ) : Prop
  | label {l : List UInt8} (hl : Taken l) (h : HasAt buf p (encodeLabel l))
      (hroom : room < l.length)
  | dot {l : List UInt8} {next : UInt8} (hl : Taken l) (h : HasAt buf p (encodeLabel l))
      (hnext : buf[p + (1 + l.length)]? = some next) (h0 : next ≠ 0) (hroom : room = l.length)

/-- There is a round, or else there is one of the ends of a run. -/
lemma follows_or_ends (buf : List UInt8) (p room : ℕ) :
    buf[p]? = some 0 ∨ (∃ t q, Follows buf p t q ∧ t.length ≤ room) ∨ Leaves buf p room ∨
      Bursts buf p room := by
  cases hflag : buf[p]? with
  | none => exact Or.inr (Or.inr (Or.inl (.byte (List.getElem?_eq_none_iff.1 hflag))))
  | some flag =>
    by_cases h0 : flag = 0
    · exact Or.inl (by rw [h0])
    refine Or.inr ?_
    by_cases hp : isPointer flag = true
    · cases hlo : buf[p + 1]? with
      | none => exact Or.inr (Or.inl (.pointer hflag hp (List.getElem?_eq_none_iff.1 hlo)))
      | some lo =>
        have hat : HasAt buf p [flag, lo] :=
          hasAt_cons_iff.2 ⟨hflag, hasAt_cons_iff.2 ⟨hlo, List.nil_prefix⟩⟩
        exact Or.inl ⟨[], _, .pointer hat hp, Nat.zero_le room⟩
    rw [Bool.not_eq_true] at hp
    by_cases hend : p + (1 + flag.toNat) ≤ buf.length
    · obtain ⟨l, hl, hat, hlen⟩ := exists_taken hflag h0 hp hend
      by_cases hroom : l.length ≤ room
      · cases hnext : buf[p + (1 + l.length)]? with
        | none => exact Or.inr (Or.inl (.next hl hat hroom (List.getElem?_eq_none_iff.1 hnext)))
        | some next =>
          by_cases hdot : (l ++ mark next).length ≤ room
          · exact Or.inl ⟨_, _, .label hl hat hnext, hdot⟩
          · -- there is room for the label, not for the dot
            have hne : next ≠ 0 := by
              rintro rfl
              exact hdot (by simpa using hroom)
            rw [mark_of_ne_zero hne, List.length_append, List.length_singleton] at hdot
            exact Or.inr (Or.inr (.dot hl hat hnext hne (by omega)))
      · exact Or.inr (Or.inr (.label hl hat (not_le.1 hroom)))
    · exact Or.inr (Or.inl (.label hflag h0 hp (not_le.1 hend)))

section Ends

variable {pos : ℕ} {out : List UInt8}

/-- The round reads at an offset behind the buffer. -/
lemma Leaves.parseNameLoop_eq (h : Leaves buf p (out.length - pos)) (hpos : pos ≤ out.length) :
    ∃ i, buf.length ≤ i ∧ ∀ fuel len,
      parseNameLoop (fuel + 1) buf p pos out len = .error (.read i) := by
  cases h with
  | byte hend =>
    refine ⟨p, hend, fun fuel len => ?_⟩
    rw [parseNameLoop, load, List.getElem?_eq_none hend]
    rfl
  | pointer h hp hend =>
    refine ⟨p + 1, hend, fun fuel len => ?_⟩
    rw [parseNameLoop, load_of_getElem? h, load, List.getElem?_eq_none hend]
    simp only [ok_bind, isPointer_ne_zero hp, if_false, hp, if_true]
    rfl
  | @label flag h h0 hp hend =>
    refine ⟨p + 1 + flag.toNat, by omega, fun fuel len => ?_⟩
    have hslice : slice buf (p + 1) flag.toNat = .error (.read (p + 1 + flag.toNat)) :=
      if_neg (by omega)
    rw [parseNameLoop, load_of_getElem? h]
    simp only [ok_bind, h0, if_false, hp, Bool.false_eq_true, hslice]
    rfl
  | @next l hl h hroom hend =>
    refine ⟨p + (1 + l.length), hend, fun fuel len => ?_⟩
    rw [parseNameLoop_label hl h, store_of_le (by omega), ok_bind, load,
      List.getElem?_eq_none hend]
    rfl

/-- The round writes outside the array. -/
lemma Bursts.parseNameLoop_eq (h : Bursts buf p (out.length - pos)) (hpos : pos ≤ out.length) :
    ∃ i, ∀ fuel len, parseNameLoop (fuel + 1) buf p pos out len = .error (.write i) := by
  cases h with
  | @label l hl h hroom =>
    refine ⟨pos + l.length, fun fuel len => ?_⟩
    rw [parseNameLoop_label hl h, store, if_neg (by omega)]
    rfl
  | @dot l next hl h hnext h0 hroom =>
    refine ⟨pos + l.length + [Dns.dot].length, fun fuel len => ?_⟩
    obtain ⟨out₁, hout₁, hlen₁⟩ := @exists_store _ out l pos (by omega)
    rw [parseNameLoop_label hl h, hout₁, ok_bind, load_of_getElem? hnext, ok_bind, if_pos h0,
      store, if_neg (by rw [List.length_singleton]; omega)]
    rfl

end Ends

/-- With this much room the decoder comes to a round that reads outside the buffer. -/
def Strays (buf : List UInt8) (p room : ℕ) : Prop :=
  ∃ text q, Gathers buf p text q ∧ text.length ≤ room ∧ Leaves buf q (room - text.length)

/-- The decoder comes to a label that there is not enough room for. -/
def Overflows (buf : List UInt8) (p room : ℕ) : Prop :=
  ∃ text q, Gathers buf p text q ∧ text.length ≤ room ∧ Bursts buf q (room - text.length)

/-- **What a run of the loop comes to.**  By induction on the budget: a round is the first of
the rounds that follow, and each other end is one of this run. -/
theorem parseNameLoop_outcome (fuel : ℕ) : ∀ (p pos : ℕ) (out : List UInt8) (len : ℕ),
    pos ≤ out.length →
      parseNameLoop fuel buf p pos out len = .error .fuel ∨
      (∃ text out', Spells buf p text ∧ pos + text.length ≤ out.length ∧
        store out pos text = .ok out' ∧
        parseNameLoop fuel buf p pos out len = .ok (out', len + text.length)) ∨
      (Strays buf p (out.length - pos) ∧
        ∃ i, buf.length ≤ i ∧ parseNameLoop fuel buf p pos out len = .error (.read i)) ∨
      (Overflows buf p (out.length - pos) ∧
        ∃ i, parseNameLoop fuel buf p pos out len = .error (.write i)) := by
  induction fuel with
  | zero => exact fun p pos out len _ => Or.inl rfl
  | succ fuel ih =>
    intro p pos out len hpos
    rcases follows_or_ends buf p (out.length - pos) with h0 | ⟨t, q, hround, hroom⟩ | hends | hends
    · refine Or.inr (Or.inl ⟨[], out, .root h0, by simpa using hpos, store_nil hpos, ?_⟩)
      exact parseNameLoop_root h0 fuel pos out len
    · have hfits : pos + t.length ≤ out.length := by omega
      obtain ⟨out₁, hout₁, hlen₁, heq⟩ := hround.parseNameLoop_eq hfits
      rw [heq]
      have hroom' : out₁.length - (pos + t.length) = out.length - pos - t.length := by omega
      rcases ih q (pos + t.length) out₁ (len + t.length) (by omega) with
        hfuel | ⟨text, out', hspells, hle, hout', hok⟩ | ⟨⟨text, r, hg, hle, hends⟩, herr⟩ |
          ⟨⟨text, r, hg, hle, hends⟩, herr⟩
      · exact Or.inl hfuel
      · refine Or.inr (Or.inl ⟨t ++ text, out', hspells.head hround, ?_,
          store_store hout₁ hout', ?_⟩)
        · rw [List.length_append]
          omega
        · rw [hok, List.length_append, Nat.add_assoc]
      · rw [hroom'] at hle hends
        rw [Nat.sub_sub, ← List.length_append] at hends
        exact Or.inr (Or.inr (Or.inl
          ⟨⟨t ++ text, r, .head hround hg, by rw [List.length_append]; omega, hends⟩, herr⟩))
      · rw [hroom'] at hle hends
        rw [Nat.sub_sub, ← List.length_append] at hends
        exact Or.inr (Or.inr (Or.inr
          ⟨⟨t ++ text, r, .head hround hg, by rw [List.length_append]; omega, hends⟩, herr⟩))
    · obtain ⟨i, hi, herr⟩ := hends.parseNameLoop_eq hpos
      exact Or.inr (Or.inr (Or.inl
        ⟨⟨[], p, .refl p, Nat.zero_le _, by simpa using hends⟩, i, hi, herr fuel len⟩))
    · obtain ⟨i, herr⟩ := hends.parseNameLoop_eq hpos
      exact Or.inr (Or.inr (Or.inr
        ⟨⟨[], p, .refl p, Nat.zero_le _, by simpa using hends⟩, i, herr fuel len⟩))

/-! ## The decoder on a zeroed array -/

variable {room : ℕ}

/-- The array with a text at its beginning. -/
lemma length_text_append (h : text.length ≤ room) :
    (text ++ List.replicate (room - text.length) (0 : UInt8)).length = room := by
  rw [List.length_append, List.length_replicate]
  omega

/-- The rounds that write a text leave it at the beginning of the array. -/
lemma Gathers.dnsParseName_eq (h : Gathers buf p text q) :
    ∃ n, ∀ room, text.length ≤ room → ∀ fuel,
      dnsParseName (fuel + n) buf p (List.replicate room 0) 0
        = parseNameLoop fuel buf q text.length
            (text ++ List.replicate (room - text.length) 0) text.length := by
  obtain ⟨n, hn⟩ := h.parseNameLoop_eq
  refine ⟨n, fun room hroom fuel => ?_⟩
  obtain ⟨out', hout', heq⟩ := hn 0 (List.replicate room 0) (by simpa using hroom)
  have hstore : store (List.replicate room (0 : UInt8)) 0 text
      = .ok ([] ++ text ++ List.replicate (room - text.length) 0) :=
    @store_append_replicate _ [] text 0 room 0 rfl hroom
  obtain rfl := Except.ok.inj (hout'.symm.trans hstore)
  rw [dnsParseName, heq]
  simp

/-- Bytes that spell a text for which there is room are decoded to it. -/
lemma Spells.dnsParseName_eq (h : Spells buf p text) :
    ∃ n, ∀ fuel, n ≤ fuel → ∀ room, text.length ≤ room →
      dnsParseName fuel buf p (List.replicate room 0) 0
        = .ok (text ++ List.replicate (room - text.length) 0, text.length) := by
  obtain ⟨q, hgathers, h0⟩ := h
  obtain ⟨n, hn⟩ := hgathers.dnsParseName_eq
  refine ⟨n + 1, fun fuel hfuel room hroom => ?_⟩
  obtain ⟨k, rfl⟩ := Nat.exists_eq_add_of_le' hfuel
  rw [← Nat.add_assoc, Nat.add_right_comm, hn room hroom, parseNameLoop_root h0]

/-- Bytes spell one text at most. -/
lemma Spells.unique {text' : List UInt8} (h : Spells buf p text) (h' : Spells buf p text') :
    text = text' := by
  obtain ⟨n, hn⟩ := h.dnsParseName_eq
  obtain ⟨n', hn'⟩ := h'.dnsParseName_eq
  have heq := Except.ok.inj ((hn (max n n') (le_max_left n n') _ (le_max_left _ _)).symm.trans
    (hn' (max n n') (le_max_right n n') _ (le_max_right text.length text'.length)))
  rw [Prod.mk.injEq] at heq
  exact (List.append_inj heq.1 heq.2).1

/-- Where the decoder comes to the end of the buffer, it reads behind it. -/
lemma Strays.dnsParseName_eq (h : Strays buf p room) :
    ∃ n i, buf.length ≤ i ∧ ∀ fuel, n ≤ fuel →
      dnsParseName fuel buf p (List.replicate room 0) 0 = .error (.read i) := by
  obtain ⟨text, q, hgathers, hroom, hends⟩ := h
  obtain ⟨n, hn⟩ := hgathers.dnsParseName_eq
  rw [← length_text_append hroom] at hends
  obtain ⟨i, hi, herr⟩ := hends.parseNameLoop_eq (by simp)
  refine ⟨n + 1, i, hi, fun fuel hfuel => ?_⟩
  obtain ⟨k, rfl⟩ := Nat.exists_eq_add_of_le' hfuel
  rw [← Nat.add_assoc, Nat.add_right_comm, hn room hroom, herr]

/-- Where there is not enough room, it writes behind the array. -/
lemma Overflows.dnsParseName_eq (h : Overflows buf p room) :
    ∃ n i, ∀ fuel, n ≤ fuel →
      dnsParseName fuel buf p (List.replicate room 0) 0 = .error (.write i) := by
  obtain ⟨text, q, hgathers, hroom, hends⟩ := h
  obtain ⟨n, hn⟩ := hgathers.dnsParseName_eq
  rw [← length_text_append hroom] at hends
  obtain ⟨i, herr⟩ := hends.parseNameLoop_eq (by simp)
  refine ⟨n + 1, i, fun fuel hfuel => ?_⟩
  obtain ⟨k, rfl⟩ := Nat.exists_eq_add_of_le' hfuel
  rw [← Nat.add_assoc, Nat.add_right_comm, hn room hroom, herr]

/-- What a run of `dns_parse_name` comes to. -/
lemma dnsParseName_outcome (fuel : ℕ) (buf : List UInt8) (p room : ℕ) :
    dnsParseName fuel buf p (List.replicate room 0) 0 = .error .fuel ∨
    (∃ text, Spells buf p text ∧ text.length ≤ room ∧
      dnsParseName fuel buf p (List.replicate room 0) 0
        = .ok (text ++ List.replicate (room - text.length) 0, text.length)) ∨
    (Strays buf p room ∧ ∃ i, buf.length ≤ i ∧
      dnsParseName fuel buf p (List.replicate room 0) 0 = .error (.read i)) ∨
    (Overflows buf p room ∧ ∃ i,
      dnsParseName fuel buf p (List.replicate room 0) 0 = .error (.write i)) := by
  have h := @parseNameLoop_outcome buf fuel p 0 (List.replicate room 0) 0 (Nat.zero_le _)
  simp only [List.length_replicate, Nat.sub_zero, Nat.zero_add] at h
  refine h.imp_right (Or.imp_left ?_)
  rintro ⟨text, out', hspells, hroom, hout', hok⟩
  have hstore : store (List.replicate room (0 : UInt8)) 0 text
      = .ok ([] ++ text ++ List.replicate (room - text.length) 0) :=
    @store_append_replicate _ [] text 0 room 0 rfl hroom
  obtain rfl := Except.ok.inj (hout'.symm.trans hstore)
  exact ⟨text, hspells, hroom, hok⟩

lemma spells_of_dnsParseName {fuel len : ℕ} {out : List UInt8}
    (h : dnsParseName fuel buf p (List.replicate room 0) 0 = .ok (out, len)) :
    ∃ text, Spells buf p text ∧ text.length ≤ room ∧
      out = text ++ List.replicate (room - text.length) 0 ∧ len = text.length := by
  rcases dnsParseName_outcome fuel buf p room with
    h' | ⟨text, hspells, hroom, h'⟩ | ⟨-, i, -, h'⟩ | ⟨-, i, h'⟩
  · cases h.symm.trans h'
  · have heq := Except.ok.inj (h.symm.trans h')
    rw [Prod.mk.injEq] at heq
    exact ⟨text, hspells, hroom, heq⟩
  · cases h.symm.trans h'
  · cases h.symm.trans h'

lemma overflows_of_dnsParseName {fuel i : ℕ}
    (h : dnsParseName fuel buf p (List.replicate room 0) 0 = .error (.write i)) :
    Overflows buf p room := by
  rcases dnsParseName_outcome fuel buf p room with
    h' | ⟨text, -, -, h'⟩ | ⟨-, j, -, h'⟩ | ⟨hoverflows, -⟩
  · cases h.symm.trans h'
  · cases h.symm.trans h'
  · cases h.symm.trans h'
  · exact hoverflows

end CppExample.Dns
