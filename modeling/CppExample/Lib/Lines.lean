/-
# Lines of a stream

A reader with a buffer of bounded size takes a stream line by line.  A line ends with the
first element that closes it, or where the buffer is full, or where the stream ends.
`firstLine` is what such a reader takes, and `lines` is everything it takes, one line after the
other.

A line is `Whole` if it ends for one of the first two reasons.  A whole line does not depend on
what follows in the stream: `firstLine_append`.
-/
import Mathlib.Data.List.Basic
import Mathlib.Tactic

namespace CppExample.Lib

variable {α : Type*} (closes : α → Bool)

/-- The beginning of a stream through the first element that closes a line, but no more than
`bound` elements. -/
def firstLine : ℕ → List α → List α
  | 0, _ => []
  | _ + 1, [] => []
  | bound + 1, a :: l => a :: if closes a then [] else firstLine bound l

/-- What follows the first line. -/
def afterLine (bound : ℕ) (l : List α) : List α := l.drop (firstLine closes bound l).length

/-- The line is closed, or as long as a line can be. -/
def Whole (bound : ℕ) (x : List α) : Prop := x.length = bound ∨ ∃ a ∈ x.getLast?, closes a

instance (bound : ℕ) (x : List α) : Decidable (Whole closes bound x) :=
  inferInstanceAs (Decidable (_ ∨ _))

variable {closes} {bound : ℕ} {a : α} {l l' x : List α}

/-! ## The first line -/

@[simp] lemma firstLine_zero : firstLine closes 0 l = [] := by
  cases l <;> rfl

@[simp] lemma firstLine_nil : firstLine closes bound [] = [] := by
  cases bound <;> rfl

lemma firstLine_cons_of_closes (h : closes a) :
    firstLine closes (bound + 1) (a :: l) = [a] := by
  simp [firstLine, h]

lemma firstLine_cons_of_not (h : ¬ closes a) :
    firstLine closes (bound + 1) (a :: l) = a :: firstLine closes bound l := by
  simp [firstLine, h]

/-- The first line is a beginning of the stream. -/
lemma prefix_firstLine (bound : ℕ) (l : List α) : firstLine closes bound l <+: l := by
  induction bound generalizing l with
  | zero => simp
  | succ bound ih =>
    cases l with
    | nil => simp
    | cons a l =>
      by_cases h : closes a
      · rw [firstLine_cons_of_closes h]
        exact List.cons_prefix_cons.2 ⟨rfl, List.nil_prefix⟩
      · rw [firstLine_cons_of_not h]
        exact List.cons_prefix_cons.2 ⟨rfl, ih l⟩

@[simp] lemma firstLine_append_afterLine (bound : ℕ) (l : List α) :
    firstLine closes bound l ++ afterLine closes bound l = l :=
  (List.prefix_append_drop (prefix_firstLine bound l)).symm

lemma length_firstLine_le (bound : ℕ) (l : List α) : (firstLine closes bound l).length ≤ bound := by
  induction bound generalizing l with
  | zero => simp
  | succ bound ih =>
    cases l with
    | nil => simp
    | cons a l =>
      by_cases h : closes a
      · simp [firstLine_cons_of_closes h]
      · simpa [firstLine_cons_of_not h] using ih l

lemma firstLine_ne_nil (hb : 0 < bound) (hl : l ≠ []) : firstLine closes bound l ≠ [] := by
  obtain ⟨bound, rfl⟩ := Nat.exists_eq_add_one.2 hb
  obtain ⟨a, l, rfl⟩ := List.exists_cons_of_ne_nil hl
  simp [firstLine]

/-! ## Whole lines -/

lemma whole_singleton (h : closes a) : Whole closes bound [a] :=
  .inr ⟨a, rfl, h⟩

lemma whole_cons_iff (h : ¬ closes a) :
    Whole closes (bound + 1) (a :: x) ↔ Whole closes bound x := by
  cases x with
  | nil =>
    simp only [Whole, h, List.length_cons, List.length_nil, List.getLast?_singleton,
      List.getLast?_nil, Option.mem_def, Option.some.injEq, exists_eq_left', reduceCtorEq,
      false_and, exists_false, or_false]
    omega
  | cons b x => simp [Whole, List.getLast?_cons_cons]

/-- A line that is not whole is all there is. -/
lemma firstLine_eq_self (h : ¬ Whole closes bound (firstLine closes bound l)) :
    firstLine closes bound l = l := by
  induction bound generalizing l with
  | zero => exact absurd (.inl (by simp)) h
  | succ bound ih =>
    cases l with
    | nil => simp
    | cons a l =>
      by_cases ha : closes a
      · rw [firstLine_cons_of_closes ha] at h
        exact absurd (whole_singleton ha) h
      · rw [firstLine_cons_of_not ha, whole_cons_iff ha] at h
        rw [firstLine_cons_of_not ha, ih h]

/-- A whole line does not depend on what follows. -/
lemma firstLine_append (h : Whole closes bound (firstLine closes bound l)) (l' : List α) :
    firstLine closes bound (l ++ l') = firstLine closes bound l := by
  induction bound generalizing l with
  | zero => simp
  | succ bound ih =>
    cases l with
    | nil => simp [Whole] at h
    | cons a l =>
      by_cases ha : closes a
      · rw [List.cons_append, firstLine_cons_of_closes ha, firstLine_cons_of_closes ha]
      · rw [firstLine_cons_of_not ha, whole_cons_iff ha] at h
        rw [List.cons_append, firstLine_cons_of_not ha, firstLine_cons_of_not ha, ih h]

/-- The first line is its own first line. -/
@[simp] lemma firstLine_firstLine (bound : ℕ) (l : List α) :
    firstLine closes bound (firstLine closes bound l) = firstLine closes bound l := by
  induction bound generalizing l with
  | zero => simp
  | succ bound ih =>
    cases l with
    | nil => simp
    | cons a l =>
      by_cases h : closes a
      · rw [firstLine_cons_of_closes h, firstLine_cons_of_closes h]
      · rw [firstLine_cons_of_not h, firstLine_cons_of_not h, ih]

/-- A beginning of a line that is whole is the line. -/
lemma eq_firstLine_of_whole (hx : x <+: firstLine closes bound l)
    (h : Whole closes bound (firstLine closes bound x)) : x = firstLine closes bound l := by
  obtain ⟨t, ht⟩ := hx
  have hline : firstLine closes bound l = firstLine closes bound x := by
    rw [← firstLine_firstLine bound l, ← ht, firstLine_append h]
  have hle : (firstLine closes bound x).length ≤ x.length := (prefix_firstLine bound x).length_le
  have hlen := congrArg List.length ht
  rw [List.length_append, hline] at hlen
  obtain rfl : t = [] := List.eq_nil_of_length_eq_zero (by omega)
  rw [← ht, List.append_nil]

/-! ## All lines -/

lemma afterLine_length_lt (hb : 0 < bound) (hl : l ≠ []) :
    (afterLine closes bound l).length < l.length := by
  have hpos : 0 < (firstLine closes bound l).length :=
    List.length_pos_iff.2 (firstLine_ne_nil hb hl)
  have := List.length_pos_iff.2 hl
  rw [afterLine, List.length_drop]
  omega

variable (closes) in
/-- The lines of a stream.  A line has at least one element. -/
def lines (bound : ℕ) (l : List α) : List (List α) :=
  if _ : 0 < bound ∧ l ≠ [] then
    firstLine closes bound l :: lines bound (afterLine closes bound l)
  else []
termination_by l.length
decreasing_by
  rename_i h
  exact afterLine_length_lt h.1 h.2

@[simp] lemma lines_nil : lines closes bound [] = [] := by
  rw [lines]
  simp

lemma lines_of_ne_nil (hb : 0 < bound) (hl : l ≠ []) :
    lines closes bound l
      = firstLine closes bound l :: lines closes bound (afterLine closes bound l) := by
  rw [lines, dif_pos ⟨hb, hl⟩]

/-- A line is not empty, and it is a single line. -/
lemma of_mem_lines {l : List α} (h : x ∈ lines closes bound l) :
    x ≠ [] ∧ firstLine closes bound x = x := by
  by_cases hl : 0 < bound ∧ l ≠ []
  · have hlt : (afterLine closes bound l).length < l.length := afterLine_length_lt hl.1 hl.2
    rw [lines_of_ne_nil hl.1 hl.2] at h
    rcases List.mem_cons.1 h with rfl | h
    · exact ⟨firstLine_ne_nil hl.1 hl.2, firstLine_firstLine bound l⟩
    · exact of_mem_lines h
  · rw [lines, dif_neg hl] at h
    simp at h
termination_by l.length

/-- Nothing is lost. -/
lemma flatten_lines (hb : 0 < bound) (l : List α) : (lines closes bound l).flatten = l := by
  by_cases hl : l = []
  · simp [hl]
  · have hlt : (afterLine closes bound l).length < l.length := afterLine_length_lt hb hl
    rw [lines_of_ne_nil hb hl, List.flatten_cons, flatten_lines hb, firstLine_append_afterLine]
termination_by l.length

end CppExample.Lib
