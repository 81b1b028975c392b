/-
# Objects in memory, and linked lists of them

The live objects of one type are a partial map from addresses.  Reading through a null
pointer, or through one to an object that is not live, is a fault.

Objects that carry a key have different keys if they are different: `KeyInj`.  Allocating an
object with a new key, replacing one by another with the same key, and freeing keep this.

`IsChain` relates a pointer to the linked list that starts there: the addresses of its
nodes, each with the payload that it carries.
-/
import CppExample.Lib.Buffer

namespace CppExample.Lib

variable {A B N : Type*}

/-- The object that a pointer points to. -/
def deref (h : A → Option B) (p : Option A) : Except Fault B :=
  match p.bind h with
  | some b => .ok b
  | none => .error .pointer

lemma deref_some {h : A → Option B} {a : A} {b : B} (ha : h a = some b) :
    deref h (some a) = .ok b := by
  rw [deref, Option.bind_some, ha]

lemma deref_eq_ok {h : A → Option B} {p : Option A} {b : B} :
    deref h p = .ok b ↔ ∃ a, p = some a ∧ h a = some b := by
  rw [deref]
  cases hb : p.bind h with
  | none =>
    rw [Option.bind_eq_none_iff] at hb
    refine iff_of_false (fun h' => by cases h') ?_
    rintro ⟨a, hp, ha⟩
    rw [hb a hp] at ha
    cases ha
  | some b' =>
    rw [Option.bind_eq_some_iff] at hb
    obtain ⟨a, rfl, ha⟩ := hb
    simp [ha]

/-- An object is not at an address that is free. -/
lemma ne_of_free {h : A → Option B} {a x : A} {y : B} (hx : h x = some y) (ha : h a = none) :
    x ≠ a := by
  rintro rfl
  rw [ha] at hx
  cases hx

/-! ## Objects with a key -/

section

variable [DecidableEq A] {K : Type*} {f : A → Option B} {key : B → K} {a x : A} {b b' y : B}

lemma update_none_eq_some : Function.update f a none x = some y ↔ x ≠ a ∧ f x = some y := by
  by_cases hx : x = a
  · subst hx
    simp
  · simp [hx]

lemma update_some_eq_some :
    Function.update f a (some b) x = some y ↔ (x = a ∧ y = b) ∨ (x ≠ a ∧ f x = some y) := by
  by_cases hx : x = a
  · subst hx
    simp [eq_comm]
  · simp [hx]

/-- Another object is not touched. -/
lemma update_eq_some_of_ne {c : Option B} (hx : x ≠ a) (h : f x = some y) :
    Function.update f a c x = some y := by
  rw [Function.update_of_ne hx]
  exact h

lemma update_ne_none {c : Option B} (hx : x ≠ a) (h : f x ≠ none) :
    Function.update f a c x ≠ none := by
  rw [Function.update_of_ne hx]
  exact h

/-- No two objects have the same key. -/
def KeyInj (key : B → K) (f : A → Option B) : Prop :=
  ∀ a a' b b', f a = some b → f a' = some b' → key b = key b' → a = a'

lemma KeyInj.insert (h : KeyInj key f) (hnew : ∀ a' b', f a' = some b' → key b' ≠ key b) :
    KeyInj key (Function.update f a (some b)) := by
  intro a₁ a₂ b₁ b₂ h₁ h₂ hkey
  rcases update_some_eq_some.1 h₁ with ⟨rfl, rfl⟩ | ⟨-, hf₁⟩ <;>
    rcases update_some_eq_some.1 h₂ with ⟨rfl, rfl⟩ | ⟨-, hf₂⟩
  · rfl
  · exact absurd hkey.symm (hnew a₂ b₂ hf₂)
  · exact absurd hkey (hnew a₁ b₁ hf₁)
  · exact h a₁ a₂ b₁ b₂ hf₁ hf₂ hkey

lemma KeyInj.replace (h : KeyInj key f) (ha : f a = some b) (hkey : key b' = key b) :
    KeyInj key (Function.update f a (some b')) := by
  intro a₁ a₂ b₁ b₂ h₁ h₂ heq
  rcases update_some_eq_some.1 h₁ with ⟨rfl, rfl⟩ | ⟨-, hf₁⟩ <;>
    rcases update_some_eq_some.1 h₂ with ⟨rfl, rfl⟩ | ⟨-, hf₂⟩
  · rfl
  · exact h a₁ a₂ b b₂ ha hf₂ (hkey.symm.trans heq)
  · exact h a₁ a₂ b₁ b hf₁ ha (heq.trans hkey)
  · exact h a₁ a₂ b₁ b₂ hf₁ hf₂ heq

lemma KeyInj.erase (h : KeyInj key f) (a : A) : KeyInj key (Function.update f a none) := by
  intro a₁ a₂ b₁ b₂ h₁ h₂ heq
  exact h a₁ a₂ b₁ b₂ (update_none_eq_some.1 h₁).2 (update_none_eq_some.1 h₂).2 heq

end

/-! ## Linked lists -/

/-- The pointer `p` starts a linked list with the nodes `l`; a node of the heap has the
payload `val` and the pointer `next`. -/
def IsChain (val : B → N) (next : B → Option A) (h : A → Option B) :
    Option A → List (A × N) → Prop
  | p, [] => p = none
  | p, x :: l => p = some x.1 ∧ ∃ b, h x.1 = some b ∧ val b = x.2 ∧ IsChain val next h (next b) l

section

variable {val : B → N} {next : B → Option A} {h h' : A → Option B} {p : Option A}
  {l : List (A × N)}

/-- The nodes of a linked list are live. -/
lemma IsChain.node (hc : IsChain val next h p l) {x : A × N} (hx : x ∈ l) :
    ∃ b, h x.1 = some b ∧ val b = x.2 := by
  induction l generalizing p with
  | nil => exact absurd hx List.not_mem_nil
  | cons y l ih =>
    obtain ⟨-, b, hb, hval, hrest⟩ := hc
    rcases List.mem_cons.1 hx with rfl | hx
    · exact ⟨b, hb, hval⟩
    · exact ih hrest hx

/-- A node is appended by redirecting the pointer of the last one. -/
lemma IsChain.snoc {a c : A} {n m : N} {b d : B} (hc : IsChain val next h p (l ++ [(a, n)]))
    (hh : ∀ x ∈ l, h' x.1 = h x.1) (hb : h' a = some b) (hbval : val b = n)
    (hbnext : next b = some c) (hd : h' c = some d) (hdval : val d = m)
    (hdnext : next d = none) : IsChain val next h' p (l ++ [(a, n)] ++ [(c, m)]) := by
  induction l generalizing p with
  | nil =>
    obtain ⟨hp, -⟩ := hc
    refine ⟨hp, b, hb, hbval, ?_⟩
    rw [hbnext]
    exact ⟨rfl, d, hd, hdval, hdnext⟩
  | cons y l ih =>
    obtain ⟨hp, b', hb', hval', hrest⟩ := hc
    refine ⟨hp, b', ?_, hval', ih hrest fun x hx => hh x (List.mem_cons_of_mem y hx)⟩
    rw [hh y List.mem_cons_self]
    exact hb'

end

end CppExample.Lib
