/-
# A process and its children

A process forks children, and each child starts with a copy of the table of descriptors.  When a
child ends, its descriptors are closed, it becomes a zombie, and the parent is sent a signal.
Signals do not queue up: there is at most one pending.

The parent has a handler for the signal, which calls `waitpid` until there is no zombie left.
While it runs, the signal is blocked, and the rest of the parent does not run.  `Reaping` is what
this achieves: a zombie is never forgotten, although one signal may stand for many children.

What a child does is a parameter.
-/
import CppExample.Lib.Threads

namespace CppExample.Lib

/-- The open descriptors of a process, with what they are open for. -/
abbrev FdTable (F : Type*) := List (ℤ × F)

variable {P F : Type*}

/-- What a descriptor is open for. -/
def FdTable.file (t : FdTable F) (fd : ℤ) : Option F := (t.find? fun e => e.1 = fd).map Prod.snd

/-- The table without a descriptor. -/
def FdTable.close (t : FdTable F) (fd : ℤ) : FdTable F := t.filter fun e => e.1 ≠ fd

/-- A child, with what the program knows about its place in it. -/
inductive Child (P F : Type*) where
  | running (pc : P) (fds : FdTable F)
  | zombie
  | reaped

/-- The child has ended. -/
def Child.isZombie : Child P F → Bool
  | zombie => true
  | _ => false

/-- The parent, its children, and its handler. -/
structure Processes (P F : Type*) where
  /-- The parent has not ended. -/
  alive : Bool
  fds : FdTable F
  children : List (Child P F)
  /-- A signal is pending. -/
  pending : Bool
  /-- The handler is running. -/
  handling : Bool
  /-- The children that `waitpid` has returned, as positions in `children`. -/
  waited : List ℕ

namespace Processes

/-- The steps outside the main program of the parent, when a child may take the steps `act`. -/
inductive Step (act : P → FdTable F → Child P F → Prop) : Processes P F → Processes P F → Prop
  | child {p : Processes P F} {i : ℕ} {pc : P} {fds : FdTable F} {c : Child P F}
      (h : p.children[i]? = some (.running pc fds)) (hact : act pc fds c) :
      Step act p { p with
        children := p.children.set i c
        pending := p.pending || c.isZombie }
  | deliver {p : Processes P F} (ha : p.alive = true) (hp : p.pending = true)
      (hh : p.handling = false) :
      Step act p { p with pending := false, handling := true }
  | reap {p : Processes P F} {i : ℕ} (ha : p.alive = true) (hh : p.handling = true)
      (h : p.children[i]? = some .zombie) :
      Step act p { p with children := p.children.set i .reaped, waited := p.waited ++ [i] }
  /-- `waitpid` returns 0 or -1. -/
  | handled {p : Processes P F} (ha : p.alive = true) (hh : p.handling = true)
      (h : ∀ i : ℕ, p.children[i]? ≠ some .zombie) :
      Step act p { p with handling := false }

/-- A new child, with a copy of the table. -/
def fork (p : Processes P F) (pc : P) : Processes P F :=
  { p with children := p.children ++ [.running pc p.fds] }

/-- The parent ends, and its descriptors are closed. -/
def exit (p : Processes P F) : Processes P F := { p with alive := false, fds := [] }

/-- A zombie is waited for, and `waitpid` has returned every child that it has returned once. -/
structure Reaping (p : Processes P F) : Prop where
  zombie : p.alive = true → ∀ i : ℕ, p.children[i]? = some .zombie →
    p.pending = true ∨ p.handling = true
  nodup : p.waited.Nodup
  waited : ∀ i, i ∈ p.waited ↔ p.children[i]? = some .reaped

variable {act : P → FdTable F → Child P F → Prop} {p q : Processes P F} {i j : ℕ} {pc : P}
  {fds : FdTable F} {c : Child P F}

lemma reaping_start (fds : FdTable F) :
    Reaping (⟨true, fds, [], false, false, []⟩ : Processes P F) :=
  ⟨by simp, by simp, by simp⟩

/-- What the parent does with its own table has nothing to do with it. -/
lemma Reaping.setFds (h : p.Reaping) (fds : FdTable F) : Reaping { p with fds := fds } :=
  ⟨h.zombie, h.nodup, h.waited⟩

lemma Reaping.exit (h : p.Reaping) : p.exit.Reaping := ⟨by simp [Processes.exit], h.nodup, h.waited⟩

lemma Reaping.fork (h : p.Reaping) (pc : P) : (p.fork pc).Reaping := by
  have hold : ∀ (i : ℕ) (c : Child P F), (∀ pc fds, c ≠ .running pc fds) →
      ((p.fork pc).children[i]? = some c ↔ p.children[i]? = some c) := by
    intro i c hc
    have hne : c ≠ .running pc p.fds := hc _ _
    rw [Processes.fork, List.getElem?_append]
    split_ifs with hi
    · rfl
    · rw [List.getElem?_eq_none (by omega : p.children.length ≤ i)]
      cases hk : i - p.children.length with
      | zero => simp [hne.symm]
      | succ k => simp
  refine ⟨fun ha i hi => h.zombie ha i ((hold i _ (by simp)).1 hi), h.nodup, fun i => ?_⟩
  rw [hold i _ (by simp)]
  exact h.waited i

/-- A step does not forget a zombie. -/
lemma Reaping.step (hact : ∀ pc fds, ¬ act pc fds .reaped) (h : p.Reaping) (hst : Step act p q) :
    q.Reaping := by
  cases hst with
  | @child i pc fds c hi hc =>
    have hne : c ≠ .reaped := by
      rintro rfl
      exact hact _ _ hc
    refine ⟨fun ha j hj => ?_, h.nodup, fun j => ?_⟩
    · by_cases hji : i = j
      · subst hji
        obtain rfl := eq_of_getElem?_set hj
        simp [Child.isZombie]
      · rw [List.getElem?_set_ne hji] at hj
        rcases h.zombie ha j hj with hp | hh
        · simp [hp]
        · exact .inr hh
    · rw [h.waited j]
      by_cases hji : i = j
      · subst hji
        rw [getElem?_set_self_of_getElem? hi, hi]
        simp [hne]
      · rw [List.getElem?_set_ne hji]
  | deliver ha hp hh => exact ⟨fun _ _ _ => .inr rfl, h.nodup, h.waited⟩
  | @reap i ha hh hi =>
    have hfresh : i ∉ p.waited := by
      rw [h.waited, hi]
      simp
    refine ⟨fun _ j hj => .inr hh, ?_, fun j => ?_⟩
    · rw [List.nodup_append]
      refine ⟨h.nodup, by simp, ?_⟩
      intro a ha b hb hab
      obtain rfl := List.mem_singleton.1 hb
      exact hfresh (hab ▸ ha)
    · rw [List.mem_append, List.mem_singleton, h.waited]
      by_cases hji : i = j
      · subst hji
        simp [getElem?_set_self_of_getElem? hi]
      · rw [List.getElem?_set_ne hji]
        simp [Ne.symm hji]
  | handled ha hh hnone => exact ⟨fun _ i hi => absurd hi (hnone i), h.nodup, h.waited⟩

/-- When no signal is pending and the handler is not running, every child that has ended was
returned by `waitpid`. -/
lemma Reaping.mem_waited (h : p.Reaping) (ha : p.alive = true) (hp : p.pending = false)
    (hh : p.handling = false) (hi : i < p.children.length)
    (hend : ∀ pc fds, p.children[i]? ≠ some (.running pc fds)) : i ∈ p.waited := by
  rw [h.waited]
  cases hc : p.children[i]? with
  | none => exact absurd (List.getElem?_eq_none_iff.1 hc) (by omega)
  | some c =>
    cases c with
    | running pc fds => exact absurd hc (hend pc fds)
    | zombie =>
      rcases h.zombie ha i hc with hp' | hh'
      · simp [hp] at hp'
      · simp [hh] at hh'
    | reaped => rfl

/-! ## What holds of all children -/

/-- The children that run have a property. -/
def Running (I : P → FdTable F → Prop) (p : Processes P F) : Prop :=
  ∀ (i : ℕ) (pc : P) (fds : FdTable F), p.children[i]? = some (.running pc fds) → I pc fds

variable {I : P → FdTable F → Prop}

/-- A child after `fork` was there before, or it is the new one. -/
lemma fork_cases {pc' : P} {fds' : FdTable F}
    (hi : (p.fork pc).children[i]? = some (.running pc' fds')) :
    p.children[i]? = some (.running pc' fds') ∨
      i = p.children.length ∧ pc' = pc ∧ fds' = p.fds := by
  rw [Processes.fork, List.getElem?_append] at hi
  split_ifs at hi with hlt
  · exact .inl hi
  · obtain ⟨hlt', heq⟩ := List.getElem?_eq_some_iff.1 hi
    rw [List.length_singleton] at hlt'
    have hzero : i - p.children.length = 0 := by omega
    simp only [hzero, List.getElem_cons_zero] at heq
    injection heq with h₁ h₂
    exact .inr ⟨by omega, h₁.symm, h₂.symm⟩

lemma Running.fork (h : p.Running I) (hpc : I pc p.fds) : (p.fork pc).Running I := by
  intro i pc' fds' hi
  rcases fork_cases hi with hi | ⟨-, rfl, rfl⟩
  · exact h i pc' fds' hi
  · exact hpc

/-- What the steps of a child keep holds of all children. -/
lemma Running.step (hact : ∀ pc fds pc' fds', act pc fds (.running pc' fds') → I pc fds →
    I pc' fds') (h : p.Running I) (hst : Step act p q) : q.Running I := by
  cases hst with
  | @child i pc fds c hi hc =>
    intro j pc' fds' hj
    by_cases hji : i = j
    · subst hji
      obtain rfl := eq_of_getElem?_set hj
      exact hact _ _ _ _ hc (h i pc fds hi)
    · rw [List.getElem?_set_ne hji] at hj
      exact h j pc' fds' hj
  | deliver ha hp hh => exact h
  | @reap i ha hh hi =>
    intro j pc' fds' hj
    by_cases hji : i = j
    · subst hji
      have := eq_of_getElem?_set hj
      cases this
    · rw [List.getElem?_set_ne hji] at hj
      exact h j pc' fds' hj
  | handled ha hh hnone => exact h

/-- The children that run differ in `f`. -/
def Distinct {β : Type*} (f : P → FdTable F → β) (p : Processes P F) : Prop :=
  ∀ (i j : ℕ) (pc pc' : P) (fds fds' : FdTable F), p.children[i]? = some (.running pc fds) →
    p.children[j]? = some (.running pc' fds') → f pc fds = f pc' fds' → i = j

variable {β : Type*} {f : P → FdTable F → β}

/-- A new child that differs from those before it. -/
lemma Distinct.fork (h : p.Distinct f) (hnew : p.Running fun pc' fds' => f pc' fds' ≠ f pc p.fds) :
    (p.fork pc).Distinct f := by
  intro i j pc₁ pc₂ fds₁ fds₂ hi hj hf
  rcases fork_cases hi with hi' | ⟨hi', rfl, rfl⟩
  · rcases fork_cases hj with hj' | ⟨hj', rfl, rfl⟩
    · exact h i j _ _ _ _ hi' hj' hf
    · exact absurd hf (hnew i _ _ hi')
  · rcases fork_cases hj with hj' | ⟨hj', rfl, rfl⟩
    · exact absurd hf.symm (hnew j _ _ hj')
    · rw [hi', hj']

/-- A child does not change it. -/
lemma Distinct.step (hact : ∀ pc fds pc' fds', act pc fds (.running pc' fds') → I pc fds →
    f pc' fds' = f pc fds) (hI : p.Running I) (h : p.Distinct f) (hst : Step act p q) :
    q.Distinct f := by
  have hback : ∀ (i : ℕ) (pc : P) (fds : FdTable F), q.children[i]? = some (.running pc fds) →
      ∃ pc₀ fds₀, p.children[i]? = some (.running pc₀ fds₀) ∧ f pc₀ fds₀ = f pc fds := by
    intro j pc' fds' hj
    cases hst with
    | @child i pc fds c hi hc =>
      by_cases hji : i = j
      · subst hji
        obtain rfl := eq_of_getElem?_set hj
        exact ⟨pc, fds, hi, (hact _ _ _ _ hc (hI i pc fds hi)).symm⟩
      · rw [List.getElem?_set_ne hji] at hj
        exact ⟨pc', fds', hj, rfl⟩
    | deliver ha hp hh => exact ⟨pc', fds', hj, rfl⟩
    | @reap i ha hh hi =>
      by_cases hji : i = j
      · subst hji
        have := eq_of_getElem?_set hj
        cases this
      · rw [List.getElem?_set_ne hji] at hj
        exact ⟨pc', fds', hj, rfl⟩
    | handled ha hh hnone => exact ⟨pc', fds', hj, rfl⟩
  intro i j pc₁ pc₂ fds₁ fds₂ hi hj hf
  obtain ⟨pc₁', fds₁', hi', hf₁⟩ := hback i _ _ hi
  obtain ⟨pc₂', fds₂', hj', hf₂⟩ := hback j _ _ hj
  exact h i j _ _ _ _ hi' hj' (by rw [hf₁, hf₂, hf])

lemma step_fds (h : Step act p q) : q.fds = p.fds := by
  cases h <;> rfl

lemma step_alive (h : Step act p q) : q.alive = p.alive := by
  cases h <;> rfl

end Processes

end CppExample.Lib
