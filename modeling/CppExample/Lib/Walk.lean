/-
# Walks with one way to go

A loop whose only state is a cursor, and whose body says where the cursor goes next or that
the loop is over, is a partial function.  From a position the loop either comes to an end or
goes on for ever.  When the cursor can be in finitely many places only, it goes on for ever
exactly if it comes to a position that leads back to itself: `acc_iff_not_endless`.
-/
import Mathlib.Data.Set.Finite.Basic
import Mathlib.Logic.Relation
import Mathlib.Order.Preorder.Finite
import Mathlib.Order.WellFounded

namespace CppExample.Lib

variable {α : Type*} {next : α → Option α} {a b : α}

/-- The cursor goes from the one position to the other. -/
def Goes (next : α → Option α) (a b : α) : Prop := next a = some b

/-- The position leads back to itself. -/
def Loops (next : α → Option α) (a : α) : Prop := Relation.TransGen (Goes next) a a

/-- The position leads to one that leads back to itself. -/
def Endless (next : α → Option α) (a : α) : Prop :=
  ∃ b, Relation.ReflTransGen (Goes next) a b ∧ Loops next b

lemma Loops.endless (h : Loops next a) : Endless next a := ⟨a, .refl, h⟩

/-- From such a position there is always a way to go, to another one. -/
lemma Endless.exists_goes (h : Endless next a) : ∃ b, Goes next a b ∧ Endless next b := by
  obtain ⟨c, hc, hloop⟩ := h
  rcases Relation.ReflTransGen.cases_head hc with rfl | ⟨b, hb, hbc⟩
  · -- the position is on the cycle itself
    obtain ⟨b, hb, hba⟩ := Relation.TransGen.head'_iff.1 hloop
    exact ⟨b, hb, a, hba, hloop⟩
  · exact ⟨b, hb, c, hbc, hloop⟩

/-- When the cursor can only be in finitely many places, and never comes to one that leads back
to itself, the walk ends. -/
lemma acc_of_not_endless (hfin : {b | ∃ a, Goes next a b}.Finite) (h : ¬ Endless next a) :
    Acc (Function.swap (Goes next)) a := by
  by_contra hacc
  obtain ⟨g, rfl, hg⟩ := not_acc_iff_exists_descending_chain.1 hacc
  -- some position occurs twice
  have hmem : ∀ n, g (n + 1) ∈ {b | ∃ a, Goes next a b} := fun n => ⟨g n, hg n⟩
  obtain ⟨m, n, hmn, heq⟩ := Set.Finite.exists_lt_map_eq_of_forall_mem hmem hfin
  have hreach : ∀ m n, m < n → Relation.TransGen (Goes next) (g m) (g n) := by
    intro m n hmn
    induction n, hmn using Nat.le_induction with
    | base => exact .single (hg m)
    | succ n _ ih => exact ih.tail (hg n)
  have hloop := hreach (m + 1) (n + 1) (by omega)
  rw [← heq] at hloop
  exact h ⟨g (m + 1), (hreach 0 (m + 1) (Nat.succ_pos m)).to_reflTransGen, hloop⟩

/-- A walk that ends does not come to a position that leads back to itself. -/
lemma not_endless_of_acc (h : Acc (Function.swap (Goes next)) a) : ¬ Endless next a := by
  induction h with
  | intro a _ ih =>
    intro hend
    obtain ⟨b, hb, hend'⟩ := hend.exists_goes
    exact ih b hb hend'

/-- **Ends of walks.** -/
theorem acc_iff_not_endless (hfin : {b | ∃ a, Goes next a b}.Finite) :
    Acc (Function.swap (Goes next)) a ↔ ¬ Endless next a := by
  constructor
  · exact not_endless_of_acc
  · exact acc_of_not_endless hfin

end CppExample.Lib
