/-
# A table of slots that is filled first fit

Descriptors are kept in the slots `lo ≤ i < hi` of an array of integers.  A slot with a
negative value is free.  `Holds` says that the other slots have the elements of a finite set,
each of them in one slot.  Putting an element into the first free slot, and clearing a slot,
keep this.

In such a table there are at least as many elements as occupied slots: `Holds.le_card`.
-/
import Mathlib.Data.Finset.Card
import Mathlib.Data.Finset.Insert
import Mathlib.Data.Finset.Erase
import Mathlib.Order.Interval.Finset.Nat
import Mathlib.Tactic

namespace CppExample.Lib

variable {lo hi : ℕ} {slot : ℕ → ℤ} {elems : Finset ℤ} {i : ℕ} {c : ℤ}

/-- The first free slot. -/
def firstFree (lo hi : ℕ) (slot : ℕ → ℤ) : Option ℕ :=
  (List.range' lo (hi - lo)).find? fun i => slot i < 0

lemma mem_range'_iff : i ∈ List.range' lo (hi - lo) ↔ lo ≤ i ∧ i < hi := by
  rw [List.mem_range'_1]
  omega

lemma firstFree_eq_some (h : firstFree lo hi slot = some i) :
    lo ≤ i ∧ i < hi ∧ slot i < 0 := by
  obtain ⟨hlo, hhi⟩ := mem_range'_iff.1 (List.mem_of_find?_eq_some h)
  have hneg := List.find?_some h
  exact ⟨hlo, hhi, of_decide_eq_true hneg⟩

lemma firstFree_eq_none (h : firstFree lo hi slot = none) (hlo : lo ≤ i) (hhi : i < hi) :
    0 ≤ slot i := by
  have hneg := List.find?_eq_none.1 h i (mem_range'_iff.2 ⟨hlo, hhi⟩)
  rw [decide_eq_true_eq] at hneg
  omega

lemma firstFree_of_least (hlo : lo ≤ i) (hhi : i < hi) (hfree : slot i < 0)
    (hleast : ∀ j, lo ≤ j → j < i → 0 ≤ slot j) : firstFree lo hi slot = some i := by
  refine List.find?_range'_eq_some.2 ⟨decide_eq_true hfree, mem_range'_iff.2 ⟨hlo, hhi⟩, ?_⟩
  intro j hj hji
  rw [decide_eq_false (not_lt.2 (hleast j hj hji))]
  rfl

/-- The slots in front of the first free one are occupied. -/
lemma firstFree_least {j : ℕ} (h : firstFree lo hi slot = some i) (hlo : lo ≤ j) (hlt : j < i) :
    0 ≤ slot j := by
  have hnot := (List.find?_range'_eq_some.1 h).2.2 j hlo hlt
  rw [Bool.not_eq_true', decide_eq_false_iff_not] at hnot
  exact not_lt.1 hnot

/-- If a slot is free, then the first free one is not behind it. -/
lemma exists_firstFree_le {j : ℕ} (hlo : lo ≤ j) (hhi : j < hi) (hfree : slot j < 0) :
    ∃ i, i ≤ j ∧ firstFree lo hi slot = some i := by
  cases h : firstFree lo hi slot with
  | none => exact absurd (firstFree_eq_none h hlo hhi) (not_le.2 hfree)
  | some i =>
    refine ⟨i, ?_, rfl⟩
    by_contra hlt
    exact absurd (firstFree_least h hlo (not_le.1 hlt)) (not_le.2 hfree)

/-- In two tables, the second one with its slots one further, of which the first `n` slots are
free alike and not all occupied, the first free slot is the same. -/
lemma firstFree_shift {slot' : ℕ → ℤ} {n hi' : ℕ} (hn : n ≤ hi) (hn' : n < hi')
    (hsame : ∀ i, i < n → (slot i < 0 ↔ slot' (i + 1) < 0)) (hfree : ∃ i, i < n ∧ slot i < 0) :
    ∃ i, i < n ∧ firstFree 0 hi slot = some i ∧ firstFree 1 hi' slot' = some (i + 1) := by
  classical
  obtain ⟨hlt, hneg⟩ := Nat.find_spec hfree
  have hleast : ∀ j, j < Nat.find hfree → 0 ≤ slot j := by
    intro j hj
    by_contra hnot
    exact Nat.find_min hfree hj ⟨by omega, not_le.1 hnot⟩
  refine ⟨Nat.find hfree, hlt, ?_, ?_⟩
  · exact firstFree_of_least (Nat.zero_le _) (by omega) hneg fun j _ hj => hleast j hj
  · refine firstFree_of_least (by omega) (by omega) ((hsame _ hlt).1 hneg) fun j hj hj' => ?_
    obtain ⟨k, rfl⟩ := Nat.exists_eq_add_of_le' hj
    have hk := hleast k (by omega)
    rw [← not_lt] at hk ⊢
    rwa [← hsame k (by omega)]

/-- The slots that are not free have the elements, each of them once. -/
structure Holds (lo hi : ℕ) (slot : ℕ → ℤ) (elems : Finset ℤ) : Prop where
  nonneg : ∀ c ∈ elems, 0 ≤ c
  mem : ∀ i, lo ≤ i → i < hi → 0 ≤ slot i → slot i ∈ elems
  inj : ∀ i j, lo ≤ i → i < hi → lo ≤ j → j < hi → 0 ≤ slot i → slot i = slot j → i = j
  slot : ∀ c ∈ elems, ∃ i, lo ≤ i ∧ i < hi ∧ slot i = c

/-- A table of free slots. -/
lemma holds_empty (h : ∀ i, lo ≤ i → i < hi → slot i < 0) : Holds lo hi slot ∅ := by
  refine ⟨by simp, fun i hlo hhi hi => ?_, fun i j hlo hhi _ _ hi => ?_, by simp⟩
  · exact absurd (h i hlo hhi) (not_lt.2 hi)
  · exact absurd (h i hlo hhi) (not_lt.2 hi)

/-- A new element in a free slot. -/
lemma Holds.put (h : Holds lo hi slot elems) (hlo : lo ≤ i) (hhi : i < hi) (hfree : slot i < 0)
    (hc : 0 ≤ c) (hnew : c ∉ elems) :
    Holds lo hi (Function.update slot i c) (insert c elems) := by
  refine ⟨fun c' hc' => ?_, fun j hj hj' hnn => ?_, fun j k hj hj' hk hk' hnn heq => ?_,
    fun c' hc' => ?_⟩
  · rcases Finset.mem_insert.1 hc' with rfl | hc'
    · exact hc
    · exact h.nonneg c' hc'
  · by_cases hji : j = i
    · subst hji
      simp
    · rw [Function.update_of_ne hji] at hnn ⊢
      exact Finset.mem_insert_of_mem (h.mem j hj hj' hnn)
  · -- the new element is in no other slot
    have hother : ∀ k, lo ≤ k → k < hi → k ≠ i → slot k ≠ c := by
      rintro k hk hk' - rfl
      exact hnew (h.mem k hk hk' hc)
    by_cases hji : j = i <;> by_cases hki : k = i
    · rw [hji, hki]
    · rw [hji, Function.update_self, Function.update_of_ne hki] at heq
      exact absurd heq.symm (hother k hk hk' hki)
    · rw [hki, Function.update_self, Function.update_of_ne hji] at heq
      exact absurd heq (hother j hj hj' hji)
    · rw [Function.update_of_ne hji] at heq hnn
      rw [Function.update_of_ne hki] at heq
      exact h.inj j k hj hj' hk hk' hnn heq
  · rcases Finset.mem_insert.1 hc' with rfl | hc'
    · exact ⟨i, hlo, hhi, Function.update_self _ _ _⟩
    · obtain ⟨j, hj, hj', rfl⟩ := h.slot c' hc'
      refine ⟨j, hj, hj', Function.update_of_ne ?_ _ _⟩
      rintro rfl
      exact absurd (h.nonneg _ hc') (not_le.2 hfree)

/-- A slot is cleared, and its element is gone. -/
lemma Holds.clear (h : Holds lo hi slot elems) (hlo : lo ≤ i) (hhi : i < hi)
    (hocc : 0 ≤ slot i) {v : ℤ} (hv : v < 0) :
    Holds lo hi (Function.update slot i v) (elems.erase (slot i)) := by
  refine ⟨fun c' hc' => h.nonneg c' (Finset.mem_of_mem_erase hc'), fun j hj hj' hnn => ?_,
    fun j k hj hj' hk hk' hnn heq => ?_, fun c' hc' => ?_⟩
  · by_cases hji : j = i
    · rw [hji, Function.update_self] at hnn
      omega
    · rw [Function.update_of_ne hji] at hnn ⊢
      refine Finset.mem_erase.2 ⟨fun heq => hji ?_, h.mem j hj hj' hnn⟩
      exact h.inj j i hj hj' hlo hhi hnn heq
  · have hji : j ≠ i := by
      rintro rfl
      rw [Function.update_self] at hnn
      omega
    have hki : k ≠ i := by
      rintro rfl
      rw [heq, Function.update_self] at hnn
      omega
    rw [Function.update_of_ne hji] at heq hnn
    rw [Function.update_of_ne hki] at heq
    exact h.inj j k hj hj' hk hk' hnn heq
  · obtain ⟨hne, hc'⟩ := Finset.mem_erase.1 hc'
    obtain ⟨j, hj, hj', rfl⟩ := h.slot c' hc'
    refine ⟨j, hj, hj', Function.update_of_ne ?_ _ _⟩
    rintro rfl
    exact hne rfl

/-- The occupied slots are not more than the elements. -/
lemma Holds.le_card (h : Holds lo hi slot elems) {n : ℕ} (hn : lo + n ≤ hi)
    (hocc : ∀ i, lo ≤ i → i < lo + n → 0 ≤ slot i) : n ≤ elems.card := by
  have hmaps : Set.MapsTo slot (Finset.Ico lo (lo + n) : Set ℕ) elems := by
    intro i hi
    rw [Finset.coe_Ico, Set.mem_Ico] at hi
    exact h.mem i hi.1 (by omega) (hocc i hi.1 hi.2)
  have hinj : Set.InjOn slot (Finset.Ico lo (lo + n) : Set ℕ) := by
    intro i hi j hj heq
    rw [Finset.coe_Ico, Set.mem_Ico] at hi hj
    exact h.inj i j hi.1 (by omega) hj.1 (by omega) (hocc i hi.1 hi.2) heq
  have hcard := Finset.card_le_card_of_injOn slot hmaps hinj
  rw [Nat.card_Ico] at hcard
  omega

/-- The elements are not more than the occupied slots. -/
lemma Holds.card_le (h : Holds lo hi slot elems) :
    elems.card ≤ ((Finset.Ico lo hi).filter fun i => 0 ≤ slot i).card := by
  refine Finset.card_le_card_of_surjOn slot fun c hc => ?_
  obtain ⟨i, hlo, hhi, rfl⟩ := h.slot c hc
  exact ⟨i, by simp [hlo, hhi, h.nonneg _ hc], rfl⟩

/-- With as many elements as slots, no slot is free. -/
lemma Holds.occupied (h : Holds lo hi slot elems) (hcard : hi - lo ≤ elems.card) (hlo : lo ≤ i)
    (hhi : i < hi) : 0 ≤ slot i := by
  by_contra hfree
  have hsub : ((Finset.Ico lo hi).filter fun i => 0 ≤ slot i) ⊂ Finset.Ico lo hi := by
    refine Finset.filter_ssubset.2 ⟨i, Finset.mem_Ico.2 ⟨hlo, hhi⟩, hfree⟩
  have hlt := Finset.card_lt_card hsub
  rw [Nat.card_Ico] at hlt
  have hle := h.card_le
  omega

/-- With fewer elements than slots, one of the first slots is free. -/
lemma Holds.exists_free (h : Holds lo hi slot elems) {n : ℕ} (hn : lo + n ≤ hi)
    (hcard : elems.card < n) : ∃ i, lo ≤ i ∧ i < lo + n ∧ slot i < 0 := by
  by_contra hnot
  have hle := h.le_card hn fun i hlo hhi => not_lt.1 fun hneg => hnot ⟨i, hlo, hhi, hneg⟩
  omega

end CppExample.Lib
