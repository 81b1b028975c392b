/-
# When `wait_for_all_done` means done

`wait_for_all_done` returns true as soon as it finds the queue empty.  A task leaves the
queue when a worker takes it, so that at this moment workers can still hold tasks that were
pushed long before the call: `busyWait` is such a state.

The call means what its comment says when `running_count` is 0 at its test of the queue and no
worker is between its pop and its `++running_count`.  It does not look at either.  More than
needed is asked here only for workers that have ended their task and not yet decremented the
counter, and for tasks that were pushed during the call.
-/
import CppExample.ThreadPool.Wakeup

namespace CppExample.ThreadPool
open Lib Relation

namespace Pc

/-- The tasks that were pushed before the call of `wait_for_all_done` that a thread is in. -/
def before : Pc → List TaskFunc
  | waitLock _ b | waitBody _ b | waitBlocked _ b | waitWoken _ _ b | waitPred _ _ b
  | waitRet _ b => b
  | _ => []

/-- The points at which `wait_for_all_done` tests the queue. -/
def testsQueue : Pc → Bool
  | waitBody _ _ | waitPred _ _ _ => true
  | _ => false

end Pc

/-- Every call of `wait_for_all_done` that has returned true did so after all tasks pushed
before it were settled, and no worker is at one of them. -/
def AllDone (s : State) : Prop :=
  ∀ p ∈ s.threads, ∀ before, p = .waitRet true before →
    ∀ x ∈ before, s.Settled x ∧ ∀ i, ¬ s.Holds i x

/-- When thread `i` is at the test of `wait_for_all_done` and finds the queue empty,
`running_count` is 0, and no worker is between its pop and its `++running_count`. -/
def IdleTest (i : ℕ) (s : State) : Prop :=
  ∀ p, s.threads[i]? = some p → p.testsQueue = true → s.tasks = [] →
    s.runningCount = 0 ∧ ∀ x, .incRunning x ∉ s.threads

/-- The steps of the pool that meet the condition. -/
def IdleNext (s t : State) : Prop := ∃ i, Step i s t ∧ IdleTest i s

/-- A worker has only its `--running_count` before it, or a task that was pushed after the
call of thread `i` began. -/
def Exempt (i : ℕ) (s : State) : Prop :=
  ∃ p ∈ s.threads, p = .decRunning ∨
    ∃ x, p.held = some x ∧ ∀ q, s.threads[i]? = some q → x ∉ q.before

/-! ## The tasks that a call waits for -/

lemma before_of_woken {p q : Pc} (h : p.woken = some q) : q.before = p.before := by
  cases p <;> cases h <;> rfl

lemma before_of_afterLock {p q : Pc} (h : p.afterLock = some q) : q.before = p.before := by
  cases p <;> cases h <;> rfl

lemma LogStep.pushed_subset {i : ℕ} {s t : State} (h : LogStep i s t) : s.pushed ⊆ t.pushed := by
  cases h with
  | quiet _ _ hpushed | act _ _ hpushed _ =>
    rw [hpushed]
    exact List.Subset.refl _
  | push _ _ _ hpushed =>
    rw [hpushed]
    exact List.subset_append_left _ _

lemma Step.before_subset {i : ℕ} {s t : State} (hst : Step i s t)
    (hs : ∀ p ∈ s.threads, p.before ⊆ s.pushed) : ∀ p ∈ t.threads, p.before ⊆ s.pushed := by
  have hat : ∀ {p : Pc}, s.threads[i]? = some p → p.before ⊆ s.pushed := fun h =>
    hs _ (List.mem_of_getElem? h)
  have hnil : [] ⊆ s.pushed := List.nil_subset _
  refine hst.forall_threads (fun p q h hp => (before_of_woken h).symm ▸ hp) hnil (fun q hq => ?_) hs
  cases hst with
  | lock h hq' =>
    obtain rfl := eq_of_getElem?_set hq
    exact (before_of_afterLock hq').symm ▸ hat h
  | wake h hq' =>
    obtain rfl := eq_of_getElem?_set hq
    exact (before_of_woken hq').symm ▸ hat h
  | call c h =>
    obtain rfl := eq_of_getElem?_set hq
    cases c with
    | waitForAllDone timed => exact List.Subset.refl _
    | _ => exact hnil
  | startSpawn h _ =>
    obtain rfl := eq_idle_of_spawn h hq
    exact hnil
  | timeout h | lateTimeout h | waitNone h | waitBlock h | waitTrue h | waitFalse h
  | waitAgain h =>
    obtain rfl := eq_of_getElem?_set hq
    have hp := hat h
    exact hp
  | _ =>
    obtain rfl := eq_of_getElem?_set hq
    exact hnil

lemma Reach.before_subset {s : State} (h : Reach s) : ∀ p ∈ s.threads, p.before ⊆ s.pushed := by
  refine Reachable.invariant (I := fun s : State => ∀ p ∈ s.threads, p.before ⊆ s.pushed)
    ?_ ?_ h
  · rintro s ⟨n, rfl⟩ p hp
    obtain ⟨-, rfl⟩ := List.mem_replicate.1 hp
    exact List.nil_subset _
  · rintro s t - hs ⟨i, hst⟩ p hp
    exact List.Subset.trans (hst.before_subset hs p hp) hst.logStep.pushed_subset

/-! ## What the test of the queue sees -/

lemma mem_held_of_holds {s : State} {i : ℕ} {x : TaskFunc} (h : s.Holds i x) : x ∈ s.held := by
  obtain ⟨p, hp, hx⟩ := h
  exact List.mem_filterMap.2 ⟨p, List.mem_of_getElem? hp, hx⟩

/-- A task that a worker holds was pushed. -/
lemma Reach.mem_pushed_of_holds {i : ℕ} {s : State} (h : Reach s) {x : TaskFunc}
    (hx : s.Holds i x) : x ∈ s.pushed := by
  have hfifo : s.pushed = s.taken ++ s.tasks := h.accounted.fifo
  have htaken : (s.taken : Multiset TaskFunc) = s.held + (s.settled.map Prod.fst : List TaskFunc) :=
    h.accounted.taken_eq
  have hmem : x ∈ (s.taken : Multiset TaskFunc) := by
    rw [htaken]
    exact Multiset.mem_add.2 (Or.inl (Multiset.mem_coe.2 (mem_held_of_holds hx)))
  rw [hfifo]
  exact List.mem_append_left _ (Multiset.mem_coe.1 hmem)

lemma exists_holds_of_mem_held {s : State} {x : TaskFunc} (h : x ∈ s.held) :
    ∃ i, s.Holds i x := by
  obtain ⟨p, hp, hx⟩ := List.mem_filterMap.1 h
  obtain ⟨i, hi⟩ := List.getElem?_of_mem hp
  exact ⟨i, p, hi, hx⟩

lemma settled_iff {s : State} {x : TaskFunc} :
    s.Settled x ↔ s.ranTimes x + s.droppedTimes x ≠ 0 := by
  rw [State.ranTimes, State.droppedTimes, ← count_settled, Ne, List.count_eq_zero, not_not,
    List.mem_map]
  constructor
  · rintro ⟨f, hf⟩
    exact ⟨(x, f), hf, rfl⟩
  · rintro ⟨⟨y, f⟩, hf, rfl⟩
    exact ⟨f, hf⟩

/-- A settled task is with no worker. -/
lemma Reach.not_holds_of_settled {s : State} (h : Reach s) {x : TaskFunc} (hx : x ∈ s.pushed)
    (hs : s.Settled x) (i : ℕ) : ¬ s.Holds i x := by
  intro hi
  have hone := h.one_place hx
  have hheld : 0 < s.held.count x := List.count_pos_iff.2 (mem_held_of_holds hi)
  have hdone := settled_iff.1 hs
  omega

/-- When the queue is empty, a pushed task that no worker holds is settled. -/
lemma Reach.settled_of_empty {s : State} (h : Reach s) {x : TaskFunc} (hx : x ∈ s.pushed)
    (hempty : s.tasks = []) (hheld : ∀ i, ¬ s.Holds i x) : s.Settled x := by
  have hone := h.one_place hx
  have hzero : s.held.count x = 0 := by
    rw [List.count_eq_zero]
    intro hmem
    obtain ⟨i, hi⟩ := exists_holds_of_mem_held hmem
    exact hheld i hi
  rw [hempty, hzero] at hone
  rw [settled_iff]
  simp only [List.count_nil] at hone
  omega

/-- A call of `wait_for_all_done` returns true only at its test of the queue. -/
lemma Step.of_waitRet {i : ℕ} {s t : State} (hst : Step i s t) {b : List TaskFunc}
    (h : t.threads[i]? = some (.waitRet true b)) :
    ∃ p, s.threads[i]? = some p ∧ p.testsQueue = true ∧ s.tasks = [] ∧ p.before = b := by
  cases hst with
  | waitNone h' hempty | waitTrue h' hempty =>
    cases eq_of_getElem?_set h
    exact ⟨_, h', rfl, hempty, rfl⟩
  | @lock p _ _ hq | @wake p _ _ hq =>
    obtain rfl := eq_of_getElem?_set h
    cases p <;> cases hq
  | call c =>
    have henter := eq_of_getElem?_set h
    cases c <;> cases henter
  | startSpawn h' _ => cases eq_idle_of_spawn h' h
  | _ => cases eq_of_getElem?_set h

/-- When thread `i` is at the test and finds the queue empty, the tasks that were pushed before
the call are not with a worker. -/
def QuietTest (i : ℕ) (s : State) : Prop :=
  ∀ p, s.threads[i]? = some p → p.testsQueue = true → s.tasks = [] →
    ∀ x ∈ p.before, ∀ w, ¬ s.Holds w x

/-- Such a step keeps the promise of all calls that have returned. -/
lemma Step.allDone {i : ℕ} {s t : State} (hs : Reach s) (hst : Step i s t) (h : AllDone s)
    (hquiet : QuietTest i s) : AllDone t := by
  have ht : Reach t := hs.tail ⟨i, hst⟩
  have hmono : ∀ x, s.Settled x → t.Settled x := fun x ⟨f, hf⟩ =>
    ⟨f, hst.logStep.prefix_log.2.mem hf⟩
  -- a task that is settled is not held, so it is enough to look at the settled ones
  suffices hP : ∀ p ∈ t.threads, ∀ b, p = .waitRet true b → ∀ x ∈ b, t.Settled x by
    intro p hp b hb x hx
    have hdone := hP p hp b hb x hx
    have hbefore : p.before ⊆ t.pushed := ht.before_subset p hp
    rw [hb] at hbefore
    exact ⟨hdone, ht.not_holds_of_settled (hbefore hx) hdone⟩
  refine hst.forall_threads ?_ ?_ ?_ ?_
  · rintro p q hq - b rfl
    cases p <;> cases hq
  · intro b hb
    cases hb
  · -- the call that returns in this step
    rintro q hq b rfl x hx
    obtain ⟨p, hp, htest, hempty, rfl⟩ := hst.of_waitRet hq
    have hpushed := hs.before_subset p (List.mem_of_getElem? hp) hx
    exact hmono x (hs.settled_of_empty hpushed hempty (hquiet p hp htest hempty x hx))
  · exact fun p hp b hb x hx => hmono x (h p hp b hb x hx).1

/-- A step of a thread at the test, when the queue is empty, is its return. -/
lemma Step.return_of_test {i : ℕ} {s t : State} (hst : Step i s t) {p : Pc}
    (hp : s.threads[i]? = some p) (htest : p.testsQueue = true) (hempty : s.tasks = []) :
    t.threads[i]? = some (.waitRet true p.before) := by
  have hset := getElem?_set_self_of_getElem? hp
  have hpc : ∀ {p' : Pc}, s.threads[i]? = some p' → p = p' := fun h' =>
    Option.some.inj (hp.symm.trans h')
  cases hst with
  | waitNone h _ | waitTrue h _ =>
    obtain rfl := hpc h
    exact hset _
  | waitBlock _ hne | waitFalse _ hne | waitAgain _ hne => exact absurd hempty hne
  | lock h hq | wake h hq =>
    obtain rfl := hpc h
    cases p <;> cases hq <;> cases htest
  | call _ h | finish _ h =>
    obtain rfl := hpc h
    cases htest
  | _ h =>
    obtain rfl := hpc h
    cases htest

lemma held_of_testsQueue {p : Pc} (h : p.testsQueue = true) : p.held = none := by
  cases p <;> first | rfl | cases h

/-- Any other step breaks the promise. -/
lemma Step.quietTest {i : ℕ} {s t : State} (hst : Step i s t) (ht : AllDone t) :
    QuietTest i s := by
  intro p hp htest hempty x hx w hw
  have hret := hst.return_of_test hp htest hempty
  have hnot := (ht _ (List.mem_of_getElem? hret) _ rfl x hx).2 w
  by_cases hiw : i = w
  · -- the thread at the test holds no task itself
    subst hiw
    obtain ⟨p', hp', hx'⟩ := hw
    rw [Option.some.inj (hp'.symm.trans hp), held_of_testsQueue htest] at hx'
    cases hx'
  · exact hnot (hst.holds_of_other hiw hw)

/-! ## The condition -/

/-- Between its pop and its `--running_count` a worker is at its `++running_count`, or counted. -/
lemma counted_of_held {p : Pc} {x : TaskFunc} (h : p.held = some x) :
    p = .incRunning x ∨ p.counted = true := by
  cases p <;> cases h <;> first | exact Or.inl rfl | exact Or.inr rfl

lemma held_of_counted {p : Pc} (h : p.counted = true) :
    p = .decRunning ∨ ∃ x, p.held = some x := by
  cases p with
  | expiryTest x | body x => exact Or.inr ⟨x, rfl⟩
  | decRunning => exact Or.inl rfl
  | _ => cases h

lemma Reach.runningCount_eq_zero_iff {s : State} (h : Reach s) :
    s.runningCount = 0 ↔ ∀ p ∈ s.threads, p.counted = false := by
  rw [h.runningCount, State.runningTotal, total_eq_countP fun _ _ => rfl, Nat.cast_eq_zero,
    List.countP_eq_zero]
  simp only [Bool.not_eq_true]

lemma IdleTest.quiet {i : ℕ} {s : State} (h : IdleTest i s) (hs : Reach s) : QuietTest i s := by
  rintro p hp htest hempty x - w ⟨q, hq, hx⟩
  obtain ⟨hzero, hinc⟩ := h p hp htest hempty
  have hmem := List.mem_of_getElem? hq
  rcases counted_of_held hx with rfl | hcounted
  · exact hinc x hmem
  · rw [hs.runningCount_eq_zero_iff.1 hzero q hmem] at hcounted
    cases hcounted

/-- Where the condition is not met, and nothing is wrong, a worker does not matter to the call. -/
lemma QuietTest.idle_or_exempt {i : ℕ} {s : State} (h : QuietTest i s) (hs : Reach s) :
    IdleTest i s ∨ Exempt i s := by
  by_contra hnot
  obtain ⟨hidle, hexempt⟩ := not_or.1 hnot
  refine hidle fun p hp htest hempty => ?_
  -- a worker with a task has one that was pushed before the call
  have hheld : ∀ q ∈ s.threads, q.held = none := by
    intro q hq
    by_contra hne
    obtain ⟨x, hx⟩ := Option.ne_none_iff_exists'.1 hne
    refine hexempt ⟨q, hq, Or.inr ⟨x, hx, fun p' hp' hbefore => ?_⟩⟩
    obtain rfl := Option.some.inj (hp.symm.trans hp')
    obtain ⟨w, hw⟩ := List.getElem?_of_mem hq
    exact h p hp htest hempty x hbefore w ⟨q, hw, hx⟩
  refine ⟨hs.runningCount_eq_zero_iff.2 fun q hq => ?_, fun x hx => ?_⟩
  · by_contra hcounted
    rcases held_of_counted (Bool.eq_true_of_not_eq_false hcounted) with rfl | ⟨x, hx⟩
    · exact hexempt ⟨_, hq, Or.inl rfl⟩
    · rw [hheld q hq] at hx
      cases hx
  · cases hheld _ hx

lemma Reach.of_idle {s : State} (h : Reachable Init IdleNext s) : Reach s :=
  h.mono fun _ _ ⟨i, hst, _⟩ => ⟨i, hst⟩

/-- **When `wait_for_all_done` means done.**  In a run in which `running_count` is 0 at every test
that finds the queue empty, with no worker on the way to its `++running_count`, every call that has
returned true has all tasks behind it that were pushed before it.  A further step that does not
meet this condition leads to a state with a call that has returned true too early, but for the
exempted workers. -/
theorem allDone_of_idleTest {s : State} (h : Reachable Init IdleNext s) :
    AllDone s ∧ ∀ i t, Step i s t →
      (IdleTest i s → AllDone t) ∧ (AllDone t → IdleTest i s ∨ Exempt i s) := by
  have hdone : AllDone s := by
    refine Reachable.invariant (I := AllDone) ?_ ?_ h
    · rintro s ⟨n, rfl⟩ p hp b rfl
      cases (List.mem_replicate.1 hp).2
    · rintro s t hs hdone ⟨i, hst, hidle⟩
      exact hst.allDone (.of_idle hs) hdone (hidle.quiet (.of_idle hs))
  refine ⟨hdone, fun i t hst => ⟨fun hidle => ?_, fun ht => ?_⟩⟩
  · exact hst.allDone (.of_idle h) hdone (hidle.quiet (.of_idle h))
  · exact (hst.quietTest ht).idle_or_exempt (.of_idle h)

/-- The worker of `oneTaskHeld` has run the task and decremented `running_count`, and client 1 has
called `wait_for_all_done` after that. -/
def doneWait : State :=
  { oneTaskHeld with
    threads := [.idle, .waitRet true [⟨0, 0⟩], .endLock]
    started := [⟨0, 0⟩]
    settled := [(⟨0, 0⟩, .ran false)] }

lemma Step.idleNext {i : ℕ} {s t : State} (hst : Step i s t) {p : Pc}
    (hp : s.threads[i]? = some p) (htest : p.testsQueue = false) : IdleNext s t := by
  refine ⟨i, hst, fun p' hp' htest' => ?_⟩
  rw [Option.some.inj (hp'.symm.trans hp), htest] at htest'
  cases htest'

lemma doneWait_reachable : Reachable Init IdleNext doneWait := by
  have h₀ : Reachable Init IdleNext (State.fresh 2) := .of_init ⟨2, rfl⟩
  have h₁ := ((h₀.tail (Step.idleNext (i := 0) (.call .start rfl) rfl rfl)).tail
    (Step.idleNext (i := 0) (.lock rfl rfl rfl) rfl rfl)).tail
    (Step.idleNext (i := 0) (.startSpawn rfl rfl) rfl rfl)
  have h₂ := ((h₁.tail (Step.idleNext (i := 0) (.call (.exec 0) rfl) rfl rfl)).tail
    (Step.idleNext (i := 0) (.lock rfl rfl rfl) rfl rfl)).tail
    (Step.idleNext (i := 0) (.push rfl (Or.inr ⟨by decide, rfl⟩)) rfl rfl)
  have h₃ := ((h₂.tail (Step.idleNext (i := 2) (.loopEnter rfl rfl) rfl rfl)).tail
    (Step.idleNext (i := 2) (.lock rfl rfl rfl) rfl rfl)).tail
    (Step.idleNext (i := 2) (.getTrue rfl rfl) rfl rfl)
  -- client 1 calls while the worker is at its task
  have h₄ := ((h₃.tail (Step.idleNext (i := 1) (.call (.waitForAllDone false) rfl) rfl rfl)).tail
    (Step.idleNext (i := 2) (.inc rfl) rfl rfl)).tail
    (Step.idleNext (i := 2) (@Step.begin 2 _ ⟨0, 0⟩ 0 rfl rfl) rfl rfl)
  have h₅ := ((h₄.tail (Step.idleNext (i := 2) (.finish false rfl) rfl rfl)).tail
    (Step.idleNext (i := 2) (.dec rfl) rfl rfl)).tail
    (Step.idleNext (i := 1) (.lock rfl rfl rfl) rfl rfl)
  -- the test of the queue, with no worker at a task
  refine h₅.tail ⟨1, .waitNone rfl rfl, fun p _ _ _ => ⟨rfl, fun x => ?_⟩⟩
  show Pc.incRunning x ∉ [.idle, .waitBody false [⟨0, 0⟩], .endLock]
  simp

theorem allDone_of_idleTest_doneWait :
    AllDone doneWait ∧ doneWait.threads[1]? = some (.waitRet true [⟨0, 0⟩]) :=
  ⟨(allDone_of_idleTest doneWait_reachable).1, rfl⟩

/-- The worker of `oneTaskHeld` is inside the body of the task, and client 1 has called
`wait_for_all_done`, which has returned true. -/
def busyWait : State :=
  { oneTaskHeld with
    runningCount := 1
    threads := [.idle, .waitRet true [⟨0, 0⟩], .body ⟨0, 0⟩]
    started := [⟨0, 0⟩] }

lemma busyWait_reach : Reach busyWait := by
  -- the worker goes on to the body
  have h₁ := (oneTaskHeld_reach.tail ⟨2, .inc rfl⟩).tail
    ⟨2, @Step.begin 2 _ ⟨0, 0⟩ 0 rfl rfl⟩
  -- client 1 calls, and finds the queue empty
  exact ((h₁.tail ⟨1, .call (.waitForAllDone false) rfl⟩).tail ⟨1, .lock rfl rfl rfl⟩).tail
    ⟨1, .waitNone rfl rfl⟩

theorem not_allDone_busyWait : Reach busyWait ∧ busyWait.Holds 2 ⟨0, 0⟩ ∧ ¬ AllDone busyWait := by
  have hholds : busyWait.Holds 2 ⟨0, 0⟩ := ⟨_, rfl, rfl⟩
  refine ⟨busyWait_reach, hholds, fun hdone => ?_⟩
  exact (hdone (.waitRet true [⟨0, 0⟩]) (by decide) _ rfl ⟨0, 0⟩ (by decide)).2 2 hholds

end CppExample.ThreadPool
