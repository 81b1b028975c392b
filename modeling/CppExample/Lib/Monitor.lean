/-
# Threads around one mutex

The proof rules for a monitor: shared data that only the holder of a mutex touches.  Every
program point is either inside the monitor, and then the thread there holds the mutex, or
outside.  The data satisfy `rest` whenever the mutex is free, and the assertion of its
program point when a thread is inside.  `Guarded` says this of a state; there is one rule
for each way in which a thread can move.

The last section is about condition variables: `Covered` says that whatever the blocked
threads wait for is paid for by the threads that are on their way to take it.
-/
import CppExample.Lib.Threads

namespace CppExample.Lib

variable {L D : Type*}

/-- The threads inside the monitor are the holder of the mutex, if any. -/
def Exclusive (inside : L → Bool) (m : Option ℕ) (ts : List L) : Prop :=
  ∀ i a, ts[i]? = some a → (inside a = true ↔ m = some i)

/-- The invariant of a monitor with the data `d`. -/
structure Guarded (inside : L → Bool) (rest : D → Prop) (assertion : L → D → Prop)
    (m : Option ℕ) (ts : List L) (d : D) : Prop where
  excl : Exclusive inside m ts
  free : m = none → rest d
  held : ∀ i, m = some i → ∃ a, ts[i]? = some a ∧ assertion a d

section Rules

variable {inside : L → Bool} {rest : D → Prop} {assertion : L → D → Prop} {m : Option ℕ}
  {ts ts' : List L} {d d' : D} {i : ℕ} {a b : L}

lemma Exclusive.set_of_eq (h : Exclusive inside m ts) (hi : ts[i]? = some a)
    (hab : inside b = inside a) : Exclusive inside m (ts.set i b) := by
  intro j c hj
  by_cases hij : i = j
  · subst hij
    rw [← eq_of_getElem?_set hj, hab]
    exact h i a hi
  · rw [List.getElem?_set_ne hij] at hj
    exact h j c hj

/-- The assertion of the point at which the holder of the mutex is. -/
lemma Guarded.at_inside (h : Guarded inside rest assertion m ts d) (hi : ts[i]? = some a)
    (ha : inside a = true) : m = some i ∧ assertion a d := by
  have hm := (h.excl i a hi).1 ha
  obtain ⟨a', hi', hassert⟩ := h.held i hm
  obtain rfl := Option.some.inj (hi.symm.trans hi')
  exact ⟨hm, hassert⟩

/-- A thread outside moves, or is moved, to another point outside. -/
lemma Guarded.outside (h : Guarded inside rest assertion m ts d) (hi : ts[i]? = some a)
    (ha : inside a = false) (hb : inside b = false) :
    Guarded inside rest assertion m (ts.set i b) d := by
  refine ⟨h.excl.set_of_eq hi (hb.trans ha.symm), h.free, fun j hm => ?_⟩
  have hij : i ≠ j := by
    rintro rfl
    rw [(h.excl i a hi).2 hm] at ha
    cases ha
  rw [List.getElem?_set_ne hij]
  exact h.held j hm

/-- A thread acquires the mutex. -/
lemma Guarded.acquire (h : Guarded inside rest assertion none ts d) (hi : ts[i]? = some a)
    (hb : inside b = true) (hassert : rest d → assertion b d) :
    Guarded inside rest assertion (some i) (ts.set i b) d := by
  have hset := getElem?_set_self_of_getElem? hi b
  refine ⟨fun j c hj => ?_, fun hm => (Option.some_ne_none i hm).elim, fun j hm => ?_⟩
  · by_cases hij : i = j
    · subst hij
      rw [hset, Option.some.injEq] at hj
      rw [← hj]
      exact iff_of_true hb rfl
    · rw [List.getElem?_set_ne hij] at hj
      have hout : ¬ inside c = true := fun hin => by cases (h.excl j c hj).1 hin
      exact iff_of_false hout fun heq => hij (Option.some.inj heq)
  · obtain rfl := Option.some.inj hm
    exact ⟨b, hset, hassert (h.free rfl)⟩

/-- A thread inside makes a step and stays inside. -/
lemma Guarded.step (h : Guarded inside rest assertion m ts d) (hi : ts[i]? = some a)
    (ha : inside a = true) (hb : inside b = true) (hassert : assertion a d → assertion b d') :
    Guarded inside rest assertion m (ts.set i b) d' := by
  obtain ⟨hm, had⟩ := h.at_inside hi ha
  refine ⟨h.excl.set_of_eq hi (hb.trans ha.symm), fun hm' => ?_, fun j hj => ?_⟩
  · rw [hm'] at hm
    cases hm
  · obtain rfl := Option.some.inj (hm.symm.trans hj)
    exact ⟨b, getElem?_set_self_of_getElem? hi b, hassert had⟩

/-- A thread inside makes a step and releases the mutex. -/
lemma Guarded.release (h : Guarded inside rest assertion m ts d) (hi : ts[i]? = some a)
    (ha : inside a = true) (hb : inside b = false) (hrest : assertion a d → rest d') :
    Guarded inside rest assertion none (ts.set i b) d' := by
  obtain ⟨hm, had⟩ := h.at_inside hi ha
  refine ⟨fun j c hj => ?_, fun _ => hrest had, fun j hm' => by cases hm'⟩
  have hout : ¬ inside c = true := by
    by_cases hij : i = j
    · subst hij
      rw [← eq_of_getElem?_set hj, hb]
      exact Bool.false_ne_true
    · rw [List.getElem?_set_ne hij] at hj
      intro hin
      exact hij (Option.some.inj (hm.symm.trans ((h.excl j c hj).1 hin)))
  exact iff_of_false hout fun heq => by cases heq

/-- A blocked thread, which is outside, is notified. -/
lemma Guarded.notifyOne {woken : L → Option L} (h : Guarded inside rest assertion m ts d)
    (hn : NotifyOne woken ts ts')
    (hw : ∀ a b, woken a = some b → inside a = false ∧ inside b = false) :
    Guarded inside rest assertion m ts' d := by
  rcases hn with ⟨j, a, b, ha, hb, rfl⟩ | ⟨-, rfl⟩
  · exact h.outside ha (hw a b hb).1 (hw a b hb).2
  · exact h

end Rules

/-! ## What blocked threads wait for -/

/-- While some thread is blocked, the `n` units that the blocked threads could use are
covered by the credits of the other threads. -/
def Covered (blocked : L → Bool) (credit : L → ℤ) (n : ℤ) (ts : List L) : Prop :=
  (∃ a ∈ ts, blocked a = true) → n ≤ total credit ts

section Covered

variable {blocked : L → Bool} {credit : L → ℤ} {n n' : ℤ} {ts ts' : List L} {i : ℕ} {a b : L}

/-- A move that gains at least as much credit as the number of units grows. -/
lemma Covered.move (h : Covered blocked credit n ts) (hi : ts[i]? = some a)
    (hb : blocked b = true → blocked a = true) (hn : n' + credit a ≤ n + credit b) :
    Covered blocked credit n' (ts.set i b) := by
  intro hex
  have hle := h (exists_mem_of_set hi hb hex)
  have hset := total_set (f := credit) hi b
  omega

/-- A move to a point that is not blocked and has at least as much credit. -/
lemma Covered.gain (h : Covered blocked credit n ts) (hi : ts[i]? = some a)
    (hb : blocked b = false) (hc : credit a ≤ credit b) :
    Covered blocked credit n (ts.set i b) := by
  refine h.move hi (fun hbl => ?_) (by omega)
  rw [hb] at hbl
  cases hbl

/-- A thread can block when there is nothing to cover. -/
lemma Covered.block (hcredit : ∀ a, 0 ≤ credit a) (hn : n ≤ 0) (ts : List L) :
    Covered blocked credit n ts := by
  intro _
  refine hn.trans (List.sum_nonneg fun c hc => ?_)
  obtain ⟨a, -, rfl⟩ := List.mem_map.1 hc
  exact hcredit a

/-- A notification covers one more unit. -/
lemma Covered.notifyOne {woken : L → Option L} (h : Covered blocked credit n ts)
    (hn : NotifyOne woken ts ts')
    (hw : ∀ a b, woken a = some b → blocked a = true ∧ credit b = credit a + 1)
    (hnone : ∀ a, woken a = none → blocked a = false) : Covered blocked credit (n + 1) ts' := by
  rcases hn with ⟨j, a, b, ha, hb, rfl⟩ | ⟨hall, rfl⟩
  · intro _
    have hle := h ⟨a, List.mem_of_getElem? ha, (hw a b hb).1⟩
    have hset := total_set (f := credit) ha b
    rw [(hw a b hb).2] at hset
    omega
  · rintro ⟨a, ha, hblocked⟩
    rw [hnone a (hall a ha)] at hblocked
    cases hblocked

/-- A notification of threads that neither are blocked nor have credit here. -/
lemma Covered.notifyOther {woken : L → Option L} (h : Covered blocked credit n ts)
    (hn : NotifyOne woken ts ts')
    (hw : ∀ a b, woken a = some b → blocked b = false ∧ credit a ≤ credit b) :
    Covered blocked credit n ts' := by
  rcases hn with ⟨j, a, b, ha, hb, rfl⟩ | ⟨-, rfl⟩
  · exact h.gain ha (hw a b hb).1 (hw a b hb).2
  · exact h

end Covered

end CppExample.Lib
