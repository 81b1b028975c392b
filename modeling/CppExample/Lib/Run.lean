/-
# Runs of a transition system

A program with several threads, or an event loop fed by its environment, is a set of
initial states and a step relation.  This file has the states that its runs reach and the
rule by which an invariant is proved of all of them.

When the environment's part in a step is named, a run has a list of inputs.  Two runs whose
inputs correspond are compared by a relation that corresponding steps keep.

A run may also write a log of what it does.  A property of its history is then a condition on
each entry, given the entries before it: `Lawful`.
-/
import Mathlib.Logic.Relation
import Mathlib.Tactic

namespace CppExample.Lib

variable {σ : Type*} {init : σ → Prop} {step step' : σ → σ → Prop}

/-- The states that a run from an initial state reaches. -/
def Reachable (init : σ → Prop) (step : σ → σ → Prop) (s : σ) : Prop :=
  ∃ s₀, init s₀ ∧ Relation.ReflTransGen step s₀ s

namespace Reachable

lemma of_init {s : σ} (h : init s) : Reachable init step s := ⟨s, h, .refl⟩

lemma tail {s t : σ} (h : Reachable init step s) (hst : step s t) : Reachable init step t := by
  obtain ⟨s₀, h₀, hs⟩ := h
  exact ⟨s₀, h₀, hs.tail hst⟩

lemma trans {s t : σ} (h : Reachable init step s) (hst : Relation.ReflTransGen step s t) :
    Reachable init step t := by
  obtain ⟨s₀, h₀, hs⟩ := h
  exact ⟨s₀, h₀, hs.trans hst⟩

/-- What holds initially and is kept by every step from a reachable state holds of every
reachable state. -/
theorem invariant {I : σ → Prop} (h₀ : ∀ s, init s → I s)
    (hstep : ∀ s t, Reachable init step s → I s → step s t → I t) {s : σ}
    (h : Reachable init step s) : I s := by
  obtain ⟨s₀, hs₀, hrun⟩ := h
  induction hrun with
  | refl => exact h₀ s₀ hs₀
  | tail hab hbc ih => exact hstep _ _ ⟨s₀, hs₀, hab⟩ ih hbc

/-- The runs of a system with fewer steps are runs of the system. -/
lemma mono (hsub : ∀ s t, step s t → step' s t) {s : σ} (h : Reachable init step s) :
    Reachable init step' s := by
  obtain ⟨s₀, h₀, hs⟩ := h
  exact ⟨s₀, h₀, Relation.ReflTransGen.mono hsub _ _ hs⟩

end Reachable

/-! ## Runs with inputs -/

variable {σ' ι ι' : Type*} {step : ι → σ → σ → Prop} {step' : ι' → σ' → σ' → Prop}

/-- The run from `s` with the inputs `l` ends in `t`. -/
inductive Trace (step : ι → σ → σ → Prop) : σ → List ι → σ → Prop
  | nil (s : σ) : Trace step s [] s
  | cons {s t u : σ} {i : ι} {l : List ι} (hst : step i s t) (h : Trace step t l u) :
      Trace step s (i :: l) u

lemma Trace.append {s t u : σ} {l l' : List ι} (h : Trace step s l t) (h' : Trace step t l' u) :
    Trace step s (l ++ l') u := by
  induction h with
  | nil s => exact h'
  | cons hst h ih => exact .cons hst (ih h')

/-- What every step keeps holds at the end of a run. -/
lemma Trace.invariant {I : σ → Prop} (hstep : ∀ i s t, I s → step i s t → I t) {s t : σ}
    {l : List ι} (h : Trace step s l t) (hs : I s) : I t := by
  induction h with
  | nil s => exact hs
  | cons hst h ih => exact ih (hstep _ _ _ hs hst)

/-- A run in which the steps of one kind use up a potential, and every other step gives back at
most `k` of it, has few steps of the first kind. -/
theorem Trace.add_countP_le {I : σ → Prop} {μ : σ → ℕ} {p : ι → Bool} {k : ℕ}
    (hstep : ∀ i s t, I s → step i s t → I t)
    (huse : ∀ i s t, I s → step i s t → p i = true → μ t + 1 ≤ μ s)
    (hgive : ∀ i s t, I s → step i s t → p i = false → μ t ≤ μ s + k) {s t : σ} {l : List ι}
    (h : Trace step s l t) (hs : I s) :
    μ t + l.countP p ≤ μ s + k * l.countP (fun i => !p i) := by
  induction h with
  | nil s => simp
  | @cons s t u i l hst h ih =>
    have hrest := ih (hstep i s t hs hst)
    rw [List.countP_cons, List.countP_cons]
    cases hi : p i with
    | true =>
      have := huse i s t hs hst hi
      simp only [Bool.not_true, Bool.false_eq_true, if_true, if_false, add_zero]
      omega
    | false =>
      have := hgive i s t hs hst hi
      simp only [Bool.not_false, Bool.false_eq_true, if_true, if_false, add_zero, mul_add, mul_one]
      omega

/-- What corresponding steps keep holds at the ends of two runs with corresponding
inputs. -/
theorem Trace.lockstep {R : σ → σ' → Prop} {A : ι → ι' → Prop}
    (hstep : ∀ i i' s s' t t', A i i' → R s s' → step i s t → step' i' s' t' → R t t')
    {s t : σ} {s' t' : σ'} {l : List ι} {l' : List ι'} (hl : List.Forall₂ A l l')
    (h : Trace step s l t) (h' : Trace step' s' l' t') (hs : R s s') : R t t' := by
  induction hl generalizing s s' with
  | nil =>
    cases h
    cases h'
    exact hs
  | cons hi _ ih =>
    cases h with
    | cons hst h =>
      cases h' with
      | cons hst' h' => exact ih h h' (hstep _ _ _ _ _ _ hi hs hst hst')

/-- A run that is accompanied by another one, whose inputs correspond. -/
theorem Trace.exists_lockstep {R : σ → σ' → Prop} {A : ι → ι' → Prop}
    (hstep : ∀ i s s' t, R s s' → step i s t → ∃ i' t', A i i' ∧ step' i' s' t' ∧ R t t')
    {s t : σ} {s' : σ'} {l : List ι} (h : Trace step s l t) (hs : R s s') :
    ∃ l' t', List.Forall₂ A l l' ∧ Trace step' s' l' t' ∧ R t t' := by
  induction h generalizing s' with
  | nil s => exact ⟨[], s', .nil, .nil s', hs⟩
  | cons hst h ih =>
    obtain ⟨i', u', hi, hst', hu⟩ := hstep _ _ _ _ hs hst
    obtain ⟨l', t', hl, h', ht⟩ := ih hu
    exact ⟨i' :: l', t', .cons hi hl, .cons hst' h', ht⟩

/-! ## Logs -/

variable {E : Type*} {allowed : List E → E → Prop} {l : List E} {e : E}

/-- Every entry of the log was allowed after the entries before it. -/
def Lawful (allowed : List E → E → Prop) (log : List E) : Prop :=
  ∀ l e l', log = l ++ e :: l' → allowed l e

lemma lawful_nil : Lawful allowed [] := by
  intro l e l' h
  simp at h

/-- An entry that is allowed keeps the log lawful. -/
lemma Lawful.snoc (h : Lawful allowed l) (he : allowed l e) : Lawful allowed (l ++ [e]) := by
  intro l₁ e₁ l₂ heq
  rcases List.eq_nil_or_concat l₂ with rfl | ⟨l₂, e₂, rfl⟩
  · obtain ⟨rfl, rfl⟩ := List.append_inj' heq rfl |>.imp id List.singleton_inj.1
    exact he
  · rw [List.concat_eq_append, ← List.cons_append, ← List.append_assoc] at heq
    exact h l₁ e₁ l₂ (List.append_inj' heq rfl).1

end CppExample.Lib
