/-
# No task is lost, duplicated or reordered

The pool, seen through its queue, its history and the tasks that its workers hold, is a
work queue in the sense of `Lib/WorkQueue.lean`.  `Step.logStep` says once what a step can
do to these; that every step of the pool is a step of the work queue or none at all, and
the order of the bodies when there is only one worker, are read off it.
-/
import CppExample.Lib.WorkQueue
import CppExample.ThreadPool.Model

namespace CppExample.ThreadPool
open Lib Relation

/-! ## What the history depends on -/

/-- The task whose body a worker is running. -/
def Pc.inBody : Pc → Option TaskFunc
  | .body t => some t
  | _ => none

/-- Whether the task of this fate was run. -/
def Fate.isRun : Fate → Bool
  | .ran _ => true
  | .expired => false

namespace State

/-- The number of workers that were ever created. -/
def workerCount (s : State) : ℕ := total (fun p => if p.isWorker then 1 else 0) s.threads

/-- The tasks that workers hold. -/
def held (s : State) : List TaskFunc := s.threads.filterMap Pc.held

/-- The tasks whose bodies are running. -/
def running (s : State) : List TaskFunc := s.threads.filterMap Pc.inBody

/-- The pool as a work queue. -/
def ledger (s : State) : WorkQueue TaskFunc Fate :=
  ⟨s.tasks, s.pushed, s.taken, s.started, s.settled, s.held, s.running⟩

end State

lemma held_of_woken {p q : Pc} (h : p.woken = some q) : q.held = p.held := by
  cases p <;> cases h <;> rfl

lemma inBody_of_woken {p q : Pc} (h : p.woken = some q) : q.inBody = p.inBody := by
  cases p <;> cases h <;> rfl

lemma isWorker_of_woken {p q : Pc} (h : p.woken = some q) : q.isWorker = p.isWorker := by
  cases p <;> cases h <;> rfl

lemma held_of_afterLock {p q : Pc} (h : p.afterLock = some q) : q.held = p.held := by
  cases p <;> cases h <;> rfl

lemma inBody_of_afterLock {p q : Pc} (h : p.afterLock = some q) : q.inBody = p.inBody := by
  cases p <;> cases h <;> rfl

lemma isWorker_of_afterLock {p q : Pc} (h : p.afterLock = some q) :
    q.isWorker = p.isWorker := by
  cases p <;> cases h <;> rfl

/-! ## What a step does to the history -/

/-- The parts of the history that only workers change, and what the threads hold. -/
structure Frame (s t : State) : Prop where
  taken : t.taken = s.taken
  started : t.started = s.started
  settled : t.settled = s.settled
  held : t.held = s.held
  running : t.running = s.running
  workers : s.workerCount ≤ t.workerCount

/-- The change of the history by a worker that moves from `p` to `q`. -/
inductive Act (s t : State) : Pc → Pc → Prop
  /-- A task is taken from the front of the queue. -/
  | take {r : Bool} {x : TaskFunc} (htasks : s.tasks = x :: t.tasks)
      (htaken : t.taken = s.taken ++ [x]) (hstarted : t.started = s.started)
      (hsettled : t.settled = s.settled) : Act s t (.getBody r) (.incRunning x)
  /-- The body of a task is started. -/
  | begin {x : TaskFunc} (htasks : t.tasks = s.tasks) (htaken : t.taken = s.taken)
      (hstarted : t.started = s.started ++ [x]) (hsettled : t.settled = s.settled) :
      Act s t (.expiryTest x) (.body x)
  /-- A task is dropped because its time is over. -/
  | drop {x : TaskFunc} (htasks : t.tasks = s.tasks) (htaken : t.taken = s.taken)
      (hstarted : t.started = s.started) (hsettled : t.settled = s.settled ++ [(x, .expired)]) :
      Act s t (.expiryTest x) .decRunning
  /-- The body of a task ends. -/
  | finish {x : TaskFunc} {threw : Bool} (htasks : t.tasks = s.tasks)
      (htaken : t.taken = s.taken) (hstarted : t.started = s.started)
      (hsettled : t.settled = s.settled ++ [(x, .ran threw)]) : Act s t (.body x) .decRunning

/-- What a step of thread `i` does to the history. -/
inductive LogStep (i : ℕ) (s t : State) : Prop
  /-- Nothing. -/
  | quiet (hf : Frame s t) (htasks : t.tasks = s.tasks) (hpushed : t.pushed = s.pushed)
  /-- A task with the next number is pushed. -/
  | push (e : ℤ) (hf : Frame s t) (htasks : t.tasks = s.tasks ++ [⟨s.pushed.length, e⟩])
      (hpushed : t.pushed = s.pushed ++ [⟨s.pushed.length, e⟩])
  /-- A worker takes a task, starts or ends its body, or drops it. -/
  | act {p q : Pc} (h : s.threads[i]? = some p) (hthreads : t.threads = s.threads.set i q)
      (hpushed : t.pushed = s.pushed) (ha : Act s t p q)

/-- A move between points at which a thread holds the same leaves the history alone. -/
lemma Frame.of_move {s t : State} {i : ℕ} {p q : Pc} (h : s.threads[i]? = some p)
    (hthreads : t.threads = s.threads.set i q) (hheld : q.held = p.held)
    (hbody : q.inBody = p.inBody) (hworker : q.isWorker = p.isWorker)
    (htaken : t.taken = s.taken) (hstarted : t.started = s.started)
    (hsettled : t.settled = s.settled) : Frame s t := by
  refine ⟨htaken, hstarted, hsettled, ?_, ?_, ?_⟩
  · rw [State.held, hthreads, State.held, filterMap_set_of_eq h hheld]
  · rw [State.running, hthreads, State.running, filterMap_set_of_eq h hbody]
  · rw [State.workerCount, State.workerCount, hthreads, total_set_of_eq h (by rw [hworker])]

/-- The same for a move that comes with the notification of every thread. -/
lemma Frame.of_notifyAll {s t : State} {i : ℕ} {p q : Pc} (h : s.threads[i]? = some p)
    (hp : p.woken = none) (hthreads : t.threads = (notifyAll Pc.woken s.threads).set i q)
    (hheld : q.held = p.held) (hbody : q.inBody = p.inBody) (hworker : q.isWorker = p.isWorker)
    (htaken : t.taken = s.taken) (hstarted : t.started = s.started)
    (hsettled : t.settled = s.settled) : Frame s t := by
  have h' : (notifyAll Pc.woken s.threads)[i]? = some p := by
    rw [getElem?_notifyAll h, hp]
    rfl
  refine ⟨htaken, hstarted, hsettled, ?_, ?_, ?_⟩
  · rw [State.held, hthreads, State.held, filterMap_set_of_eq h' hheld,
      filterMap_notifyAll fun a b => held_of_woken]
  · rw [State.running, hthreads, State.running, filterMap_set_of_eq h' hbody,
      filterMap_notifyAll fun a b => inBody_of_woken]
  · rw [State.workerCount, State.workerCount, hthreads, total_set_of_eq h' (by rw [hworker]),
      total_notifyAll fun a b hab => by rw [isWorker_of_woken hab]]

lemma Step.logStep {i : ℕ} {s t : State} (h : Step i s t) : LogStep i s t := by
  cases h with
  | lock h hq hm =>
    exact .quiet (.of_move h rfl (held_of_afterLock hq) (inBody_of_afterLock hq)
      (isWorker_of_afterLock hq) rfl rfl rfl) rfl rfl
  | wake h hq =>
    exact .quiet (.of_move h rfl (held_of_woken hq) (inBody_of_woken hq)
      (isWorker_of_woken hq) rfl rfl rfl) rfl rfl
  | getTrue h hg =>
    exact .act h rfl rfl (.take (State.get_eq_some hg).2 rfl rfl rfl)
  | expire h hnow => exact .act h rfl rfl (.drop rfl rfl rfl rfl)
  | begin h hnow => exact .act h rfl rfl (.begin rfl rfl rfl rfl)
  | finish threw h => exact .act h rfl rfl (.finish rfl rfl rfl rfl)
  | endNotify h hc =>
    exact .quiet (.of_notifyAll h rfl rfl rfl rfl rfl rfl rfl rfl) rfl rfl
  | stopSet h =>
    exact .quiet (.of_notifyAll h rfl rfl rfl rfl rfl rfl rfl rfl) rfl rfl
  | startSpawn h hw =>
    refine .quiet ⟨rfl, rfl, rfl, ?_, ?_, ?_⟩ rfl rfl
    · simp only [State.held, List.filterMap_append]
      rw [filterMap_set_of_eq h (by rfl)]
      simp [Pc.held]
    · simp only [State.running, List.filterMap_append]
      rw [filterMap_set_of_eq h (by rfl)]
      simp [Pc.inBody]
    · simp only [State.workerCount, total_append]
      rw [total_set_of_eq h (by rfl)]
      exact Nat.le_add_right _ _
  | @push e ts h hn =>
    have h' := hn.getElem?_of_not_blocked h rfl
    refine .push e ⟨rfl, rfl, rfl, ?_, ?_, ?_⟩ rfl rfl
    · simp only [State.held]
      rw [filterMap_set_of_eq h' (by rfl), hn.filterMap_eq fun a b => held_of_woken]
    · simp only [State.running]
      rw [filterMap_set_of_eq h' (by rfl), hn.filterMap_eq fun a b => inBody_of_woken]
    · simp only [State.workerCount]
      rw [total_set_of_eq h' (by rfl), hn.total_eq fun a b hab => by rw [isWorker_of_woken hab]]
  | call c h =>
    refine .quiet (.of_move h rfl ?_ ?_ ?_ rfl rfl rfl) rfl rfl <;> cases c <;> rfl
  | timeout h | lateTimeout h | loopExit h | loopEnter h | getBlock h | getFalse h | inc h | dec h
  | endQuiet h | initialRefuse h | initialSet h | startRefuse h | waitNone h | waitBlock h
  | waitTrue h | waitFalse h | waitAgain h | waitDone h | stopBegin h | stopIsJoinable h
  | stopNotJoinable h | stopJoined h | stopDeleted h | stopLoopEnd h | stopCleared h =>
    exact .quiet (.of_move h rfl rfl rfl rfl rfl rfl rfl) rfl rfl

/-! ## The pool simulates the work queue -/

lemma Frame.ledger {s t : State} (hf : Frame s t) :
    t.ledger = ⟨t.tasks, t.pushed, s.taken, s.started, s.settled, s.held, s.running⟩ := by
  rw [State.ledger, hf.taken, hf.started, hf.settled, hf.held, hf.running]

/-- The tasks that are held, when thread `i` moves from `p` to `q`. -/
lemma coe_held_add {s t : State} {i : ℕ} {p q : Pc} (h : s.threads[i]? = some p)
    (hthreads : t.threads = s.threads.set i q) :
    (t.held : Multiset TaskFunc) + (p.held.toList : Multiset TaskFunc)
      = (s.held : Multiset TaskFunc) + (q.held.toList : Multiset TaskFunc) := by
  rw [State.held, hthreads]
  exact filterMap_set_add h q

/-- The bodies that are running, when thread `i` moves from `p` to `q`. -/
lemma coe_running_add {s t : State} {i : ℕ} {p q : Pc} (h : s.threads[i]? = some p)
    (hthreads : t.threads = s.threads.set i q) :
    (t.running : Multiset TaskFunc) + (p.inBody.toList : Multiset TaskFunc)
      = (s.running : Multiset TaskFunc) + (q.inBody.toList : Multiset TaskFunc) := by
  rw [State.running, hthreads]
  exact filterMap_set_add h q

/-- Every step of the pool is a step of the work queue or leaves it alone. -/
theorem LogStep.simulates {i : ℕ} {s t : State} (h : LogStep i s t) :
    t.ledger = s.ledger ∨ WorkQueue.Step Fate.isRun s.ledger t.ledger := by
  cases h with
  | quiet hf htasks hpushed =>
    left
    rw [hf.ledger, htasks, hpushed]
    rfl
  | push e hf htasks hpushed =>
    right
    rw [hf.ledger, htasks, hpushed]
    exact .push _
  | act h hthreads hpushed ha =>
    right
    have hheld := coe_held_add h hthreads
    have hrun := coe_running_add h hthreads
    cases ha with
    | @take r x htasks htaken hstarted hsettled =>
      have hl : t.ledger = ⟨t.tasks, s.pushed, s.taken ++ [x], s.started, s.settled,
          s.held + {x}, s.running⟩ := by
        have hheld' : (t.held : Multiset TaskFunc) = s.held + {x} :=
          (add_zero _).symm.trans hheld
        have hrun' : (t.running : Multiset TaskFunc) = s.running := add_right_cancel hrun
        rw [State.ledger, hpushed, htaken, hstarted, hsettled, hheld', hrun']
      rw [hl]
      exact .take htasks
    | @begin x htasks htaken hstarted hsettled =>
      have hl : t.ledger = ⟨s.tasks, s.pushed, s.taken, s.started ++ [x], s.settled,
          s.held, s.running + {x}⟩ := by
        have hheld' : (t.held : Multiset TaskFunc) = s.held := add_right_cancel hheld
        have hrun' : (t.running : Multiset TaskFunc) = s.running + {x} :=
          (add_zero _).symm.trans hrun
        rw [State.ledger, hpushed, htaken, hstarted, hsettled, htasks, hheld', hrun']
      rw [hl]
      exact .begin x
    | @drop x htasks htaken hstarted hsettled =>
      have hl : t.ledger = ⟨s.tasks, s.pushed, s.taken, s.started,
          s.settled ++ [(x, .expired)], t.held, t.running⟩ := by
        rw [State.ledger, hpushed, htaken, hstarted, hsettled, htasks]
      rw [hl]
      exact .settle (by simpa [Pc.held, State.ledger] using hheld.symm)
        (by simpa [Pc.inBody, State.ledger, Fate.isRun] using hrun.symm)
    | @finish x threw htasks htaken hstarted hsettled =>
      have hl : t.ledger = ⟨s.tasks, s.pushed, s.taken, s.started,
          s.settled ++ [(x, .ran threw)], t.held, t.running⟩ := by
        rw [State.ledger, hpushed, htaken, hstarted, hsettled, htasks]
      rw [hl]
      exact .settle (by simpa [Pc.held, State.ledger] using hheld.symm)
        (by simpa [Pc.inBody, State.ledger, Fate.isRun] using hrun.symm)

lemma ledger_fresh (n : ℕ) : (State.fresh n).ledger = ⟨[], [], [], [], [], 0, 0⟩ := by
  simp [State.ledger, State.fresh, State.held, State.running, Pc.held, Pc.inBody]

/-- The books of the pool are balanced in every reachable state. -/
lemma Reach.accounted {s : State} (h : Reach s) : s.ledger.Accounted Fate.isRun := by
  refine Reachable.invariant (I := fun s => s.ledger.Accounted Fate.isRun) ?_ ?_ h
  · rintro s ⟨n, rfl⟩
    rw [ledger_fresh]
    exact ⟨rfl, rfl, rfl⟩
  · rintro s t - hs ⟨i, hst⟩
    rcases hst.logStep.simulates with heq | hstep
    · rw [heq]
      exact hs
    · exact hs.step hstep

/-- Tasks are numbered in the order of the pushes. -/
lemma Reach.pushed_ids {s : State} (h : Reach s) :
    s.pushed.map TaskFunc.id = List.range s.pushed.length := by
  refine Reachable.invariant
    (I := fun s : State => s.pushed.map TaskFunc.id = List.range s.pushed.length) ?_ ?_ h
  · rintro s ⟨n, rfl⟩
    rfl
  · rintro s t - hs ⟨i, hst⟩
    cases hst.logStep with
    | quiet _ _ hpushed => rw [hpushed]; exact hs
    | push e _ _ hpushed =>
      rw [hpushed, List.map_append, hs, List.length_append, List.length_singleton,
        List.range_succ]
      rfl
    | act _ _ hpushed _ => rw [hpushed]; exact hs

lemma Reach.pushed_nodup {s : State} (h : Reach s) : s.pushed.Nodup := by
  have hnd : (s.pushed.map TaskFunc.id).Nodup := by
    rw [h.pushed_ids]
    exact List.nodup_range
  exact hnd.of_map

/-! ## One worker -/

/-- With one worker, the tasks that were taken are those that are settled, in this order,
and the one that is held; and likewise for the bodies. -/
def InOrder (s : State) : Prop :=
  s.workerCount ≤ 1 → s.taken = s.settled.map Prod.fst ++ s.held ∧
    s.started = WorkQueue.ranItems Fate.isRun s.settled ++ s.running

lemma held_of_not_worker {p : Pc} (h : p.isWorker = false) : p.held = none := by
  cases p <;> first | rfl | cases h

lemma inBody_of_not_worker {p : Pc} (h : p.isWorker = false) : p.inBody = none := by
  cases p <;> first | rfl | cases h

/-- With one worker, the only tasks held are its own. -/
lemma held_eq_toList {s : State} (hone : s.workerCount ≤ 1) {i : ℕ} {p : Pc}
    (h : s.threads[i]? = some p) (hp : p.isWorker = true) :
    s.held = p.held.toList ∧ s.running = p.inBody.toList := by
  have hother : ∀ j b, j ≠ i → s.threads[j]? = some b → b.isWorker = false :=
    fun j b hj hb => eq_false_of_total_le_one hone h hp hj hb
  exact ⟨filterMap_eq_toList h fun j b hj hb => held_of_not_worker (hother j b hj hb),
    filterMap_eq_toList h fun j b hj hb => inBody_of_not_worker (hother j b hj hb)⟩

lemma Act.isWorker {s t : State} {p q : Pc} (h : Act s t p q) :
    p.isWorker = true ∧ q.isWorker = true := by
  cases h <;> exact ⟨rfl, rfl⟩

lemma LogStep.inOrder {i : ℕ} {s t : State} (h : LogStep i s t) (hs : InOrder s) :
    InOrder t := by
  intro hone
  cases h with
  | quiet hf _ _ | push _ hf _ _ =>
    obtain ⟨h1, h2⟩ := hs (hf.workers.trans hone)
    rw [hf.taken, hf.settled, hf.held, hf.started, hf.running]
    exact ⟨h1, h2⟩
  | @act p q h hthreads _ ha =>
    obtain ⟨hp, hq⟩ := ha.isWorker
    have hcount : t.workerCount = s.workerCount := by
      rw [State.workerCount, hthreads]
      exact total_set_of_eq h (by rw [hp, hq])
    rw [hcount] at hone
    have ht : t.threads[i]? = some q := by
      rw [hthreads]
      exact getElem?_set_self_of_getElem? h q
    obtain ⟨hheld, hrun⟩ := held_eq_toList hone h hp
    obtain ⟨hheld', hrun'⟩ := held_eq_toList (hcount ▸ hone) ht hq
    obtain ⟨h1, h2⟩ := hs hone
    rw [hheld] at h1
    rw [hrun] at h2
    rw [hheld', hrun']
    cases ha with
    | take _ htaken hstarted hsettled =>
      rw [htaken, hstarted, hsettled, h1, h2]
      simp [Pc.held, Pc.inBody]
    | begin _ htaken hstarted hsettled =>
      rw [htaken, hstarted, hsettled, h1, h2]
      simp [Pc.held, Pc.inBody]
    | drop _ htaken hstarted hsettled =>
      rw [htaken, hstarted, hsettled, h1, h2, WorkQueue.ranItems_append]
      simp [Pc.held, Pc.inBody, Fate.isRun]
    | finish _ htaken hstarted hsettled =>
      rw [htaken, hstarted, hsettled, h1, h2, WorkQueue.ranItems_append]
      simp [Pc.held, Pc.inBody, Fate.isRun]

lemma Reach.inOrder {s : State} (h : Reach s) : InOrder s := by
  refine Reachable.invariant ?_ ?_ h
  · rintro s ⟨n, rfl⟩ _
    simp [State.fresh, State.held, State.running, Pc.held, Pc.inBody, WorkQueue.ranItems]
  · rintro s t - hs ⟨i, hst⟩
    exact hst.logStep.inOrder hs

lemma held_of_inBody {p : Pc} {x : TaskFunc} (h : p.inBody = some x) : p.held = some x := by
  cases p <;> cases h
  rfl

/-- What is run is held. -/
lemma running_sublist_held (s : State) : s.running.Sublist s.held :=
  filterMap_sublist_filterMap (fun _ _ => held_of_inBody) s.threads

/-- Only workers hold tasks, and each at most one. -/
lemma length_held_le (s : State) : s.held.length ≤ s.workerCount := by
  refine length_filterMap_le_total (fun p x hx => ?_) s.threads
  cases hw : p.isWorker with
  | true => exact Nat.le_refl 1
  | false =>
    rw [held_of_not_worker hw] at hx
    cases hx

/-! ## What becomes of a task that was taken -/

namespace State

/-- Thread `i` has taken the task and not settled it. -/
def Holds (s : State) (i : ℕ) (x : TaskFunc) : Prop :=
  ∃ p, s.threads[i]? = some p ∧ p.held = some x

/-- The task was run to its end or dropped. -/
def Settled (s : State) (x : TaskFunc) : Prop := ∃ f, (x, f) ∈ s.settled

/-- How often the task was run to its end. -/
def ranTimes (s : State) (x : TaskFunc) : ℕ :=
  (WorkQueue.ranItems Fate.isRun s.settled).count x

/-- How often the task was dropped. -/
def droppedTimes (s : State) (x : TaskFunc) : ℕ := s.settled.count (x, .expired)

end State

/-- The steps that a worker still makes before it settles the task it holds. -/
def Pc.stepsLeft : Pc → ℕ
  | .incRunning _ => 3
  | .expiryTest _ => 2
  | .body _ => 1
  | _ => 0

lemma count_settled (settled : List (TaskFunc × Fate)) (x : TaskFunc) :
    (settled.map Prod.fst).count x
      = (WorkQueue.ranItems Fate.isRun settled).count x + settled.count (x, .expired) := by
  induction settled with
  | nil => rfl
  | cons e settled ih =>
    obtain ⟨y, f⟩ := e
    rw [List.map_cons, List.count_cons, ih, List.count_cons]
    cases f with
    | expired => simp [WorkQueue.ranItems, Fate.isRun, add_assoc]
    | ran threw => simp [WorkQueue.ranItems, Fate.isRun, List.count_cons, add_right_comm]

/-- The history only grows. -/
lemma LogStep.prefix_log {i : ℕ} {s t : State} (h : LogStep i s t) :
    s.taken <+: t.taken ∧ s.settled <+: t.settled := by
  cases h with
  | quiet hf _ _ | push _ hf _ _ =>
    rw [hf.taken, hf.settled]
    exact ⟨List.prefix_rfl, List.prefix_rfl⟩
  | act _ _ _ ha =>
    cases ha with
    | take _ htaken _ hsettled | begin _ htaken _ hsettled | drop _ htaken _ hsettled
    | finish _ htaken _ hsettled =>
      rw [htaken, hsettled]
      exact ⟨by simp, by simp⟩

lemma prefix_log_of_run {s t : State} (h : ReflTransGen Next s t) :
    s.taken <+: t.taken ∧ s.settled <+: t.settled := by
  induction h with
  | refl => exact ⟨List.prefix_rfl, List.prefix_rfl⟩
  | tail _ hbc ih =>
    obtain ⟨i, hbc⟩ := hbc
    obtain ⟨h1, h2⟩ := hbc.logStep.prefix_log
    exact ⟨ih.1.trans h1, ih.2.trans h2⟩

/-- A step of the worker that holds a task settles it or comes closer to that. -/
lemma Step.own {i : ℕ} {s t : State} (hst : Step i s t) {p : Pc} {x : TaskFunc}
    (h : s.threads[i]? = some p) (hp : p.held = some x) :
    t.Settled x ∨ ∃ q, t.threads[i]? = some q ∧ q.held = some x ∧ q.stepsLeft < p.stepsLeft := by
  have hset := getElem?_set_self_of_getElem? h
  have hpc : ∀ {p' : Pc}, s.threads[i]? = some p' → p = p' := fun h' =>
    Option.some.inj (h.symm.trans h')
  cases hst with
  | inc h' =>
    obtain rfl := hpc h'
    exact Or.inr ⟨_, hset _, hp, Nat.lt_succ_self 2⟩
  | begin h' =>
    obtain rfl := hpc h'
    exact Or.inr ⟨_, hset _, hp, Nat.lt_succ_self 1⟩
  | expire h' =>
    obtain rfl := hpc h'
    cases hp
    exact Or.inl ⟨.expired, List.mem_append_right _ (List.mem_singleton_self _)⟩
  | finish threw h' =>
    obtain rfl := hpc h'
    cases hp
    exact Or.inl ⟨.ran threw, List.mem_append_right _ (List.mem_singleton_self _)⟩
  | lock h' hq | wake h' hq =>
    obtain rfl := hpc h'
    cases p <;> cases hq <;> cases hp
  | call c h' =>
    obtain rfl := hpc h'
    cases hp
  | _ h' =>
    obtain rfl := hpc h'
    cases hp

/-- A step of another thread leaves a task with its worker. -/
lemma Step.holds_of_other {i j : ℕ} {s t : State} (hst : Step j s t) (hij : j ≠ i) {x : TaskFunc}
    (h : s.Holds i x) : t.Holds i x := by
  obtain ⟨p, hp, hx⟩ := h
  rcases hst.of_other hij hp with hp' | ⟨q, hq, hp'⟩
  · exact ⟨p, hp', hx⟩
  · exact ⟨q, hp', (held_of_woken hq).trans hx⟩

/-- A task that a worker holds is still held by it after a step, or settled. -/
lemma Step.holds {i j : ℕ} {s t : State} (hst : Step j s t) {x : TaskFunc} (h : s.Holds i x) :
    t.Holds i x ∨ t.Settled x := by
  by_cases hij : j = i
  · subst hij
    obtain ⟨p, hp, hx⟩ := h
    rcases hst.own hp hx with hdone | ⟨q, hq, hx', -⟩
    · exact Or.inr hdone
    · exact Or.inl ⟨q, hq, hx'⟩
  · exact Or.inl (hst.holds_of_other hij h)

lemma holds_of_run {i : ℕ} {s t : State} {x : TaskFunc} (h : s.Holds i x)
    (hrun : ReflTransGen Next s t) : t.Holds i x ∨ t.Settled x := by
  induction hrun with
  | refl => exact Or.inl h
  | tail _ hbc ih =>
    obtain ⟨j, hbc⟩ := hbc
    rcases ih with hheld | ⟨f, hf⟩
    · exact hbc.holds hheld
    · exact Or.inr ⟨f, hbc.logStep.prefix_log.2.mem hf⟩

/-- The worker that holds a task can go on alone, whatever the state of the mutex and of
`_terminate`, and settles it. -/
lemma exists_settled {i : ℕ} {s : State} {x : TaskFunc} (h : s.Holds i x) :
    ∃ t, ReflTransGen (Step i) s t ∧ t.Settled x := by
  obtain ⟨p, hp, hx⟩ := h
  have hset : ∀ (s : State) {p : Pc}, s.threads[i]? = some p → ∀ q,
      (s.threads.set i q)[i]? = some q := fun s p h => getElem?_set_self_of_getElem? h
  -- what is left to do from each point, the last one first
  have hbody : ∀ s : State, s.threads[i]? = some (.body x) →
      ∃ t, ReflTransGen (Step i) s t ∧ t.Settled x := fun s h =>
    ⟨_, .single (.finish false h), .ran false, List.mem_append_right _ (by simp)⟩
  have htest : ∀ s : State, s.threads[i]? = some (.expiryTest x) →
      ∃ t, ReflTransGen (Step i) s t ∧ t.Settled x := by
    intro s h
    cases hexp : x.expired 0 with
    | true => exact ⟨_, .single (.expire h hexp), .expired, List.mem_append_right _ (by simp)⟩
    | false =>
      obtain ⟨t, hrun, ht⟩ := hbody { s.goto i (.body x) with started := s.started ++ [x] }
        (hset s h (.body x))
      exact ⟨t, .head (.begin h hexp) hrun, ht⟩
  cases p with
  | incRunning y =>
    obtain rfl : y = x := by simpa [Pc.held] using hx
    obtain ⟨t, hrun, ht⟩ := htest
      { s.goto i (.expiryTest y) with runningCount := s.runningCount + 1 }
      (hset s hp (.expiryTest y))
    exact ⟨t, .head (.inc hp) hrun, ht⟩
  | expiryTest y =>
    obtain rfl : y = x := by simpa [Pc.held] using hx
    exact htest s hp
  | body y =>
    obtain rfl : y = x := by simpa [Pc.held] using hx
    exact hbody s hp
  | _ => cases hx

/-! ## Conservation -/

/-- What the pool owes its tasks, in a state `s` and in all states after it. -/
structure Conserved (s : State) : Prop where
  /-- A pushed task waits, is held by a worker, was run to its end or was dropped: it is in
  one of these situations, and once. -/
  one_place : ∀ x ∈ s.pushed,
    s.tasks.count x + s.held.count x + s.ranTimes x + s.droppedTimes x = 1
  /-- A body is started once for every time it is running or was run to its end. -/
  started : ∀ x, s.started.count x = s.running.count x + s.ranTimes x
  /-- A dropped task was not started. -/
  dropped : ∀ x ∈ s.pushed, s.droppedTimes x = 1 → x ∉ s.started
  /-- Tasks leave the queue in the order in which they were pushed. -/
  fifo : s.pushed = s.taken ++ s.tasks
  /-- A taken task is never put back. -/
  not_put_back : ∀ t, ReflTransGen Next s t → s.taken <+: t.taken ∧ ∀ x ∈ s.taken, x ∉ t.tasks
  /-- A held task stays with its worker until it is settled, whatever the others do. -/
  kept : ∀ i x, s.Holds i x → ∀ t, ReflTransGen Next s t → t.Holds i x ∨ t.Settled x
  /-- Its worker can go on alone until it is settled, and every step that it makes is one
  of the at most three that this takes. -/
  settles : ∀ i x, s.Holds i x → (∃ t, ReflTransGen (Step i) s t ∧ t.Settled x) ∧
    ∀ t, Step i s t → t.Settled x ∨ ∃ p q, s.threads[i]? = some p ∧ t.threads[i]? = some q ∧
      q.held = some x ∧ q.stepsLeft < p.stepsLeft ∧ p.stepsLeft ≤ 3
  /-- With one worker the bodies run one at a time, in the order of the pushes, each after
  the end of the one before. -/
  one_worker : s.workerCount ≤ 1 → s.running.length ≤ 1 ∧ s.started.Sublist s.pushed ∧
    s.started = WorkQueue.ranItems Fate.isRun s.settled ++ s.running

lemma stepsLeft_le (p : Pc) : p.stepsLeft ≤ 3 := by
  cases p <;> simp [Pc.stepsLeft]

lemma Reach.one_place {s : State} (h : Reach s) {x : TaskFunc} (hx : x ∈ s.pushed) :
    s.tasks.count x + s.held.count x + s.ranTimes x + s.droppedTimes x = 1 := by
  have hone := h.accounted.count_eq_one h.pushed_nodup hx
  have hsplit := count_settled s.settled x
  simp only [State.ledger, Multiset.coe_count] at hone
  rw [State.ranTimes, State.droppedTimes]
  omega

lemma Reach.count_started {s : State} (h : Reach s) (x : TaskFunc) :
    s.started.count x = s.running.count x + s.ranTimes x := by
  have := h.accounted.count_started x
  rwa [State.ledger, Multiset.coe_count] at this

/-- **Task conservation.**  In every interleaving of the clients and the workers, no task
is lost, duplicated, put back or reordered. -/
theorem task_conservation {s : State} (h : Reach s) : Conserved s where
  one_place x hx := h.one_place hx
  started x := h.count_started x
  dropped x hx hdrop := by
    have hone := h.one_place hx
    have hrun : s.running.count x ≤ s.held.count x := (running_sublist_held s).count_le x
    have hst := h.count_started x
    rw [← List.count_eq_zero]
    omega
  fifo := h.accounted.fifo
  not_put_back t hrun := by
    obtain ⟨htaken, -⟩ := prefix_log_of_run hrun
    have ht : Reach t := Reachable.trans h hrun
    exact ⟨htaken, fun x hx => ht.accounted.not_mem_queue ht.pushed_nodup (htaken.mem hx)⟩
  kept i x hx t hrun := holds_of_run hx hrun
  settles i x hx := by
    refine ⟨exists_settled hx, fun t hst => ?_⟩
    obtain ⟨p, hp, hheld⟩ := hx
    rcases hst.own hp hheld with hdone | ⟨q, hq, hx', hlt⟩
    · exact Or.inl hdone
    · exact Or.inr ⟨p, q, hp, hq, hx', hlt, stepsLeft_le p⟩
  one_worker hone := by
    obtain ⟨htaken, hstarted⟩ := h.inOrder hone
    refine ⟨?_, ?_, hstarted⟩
    · exact (running_sublist_held s).length_le.trans ((length_held_le s).trans hone)
    · have hsub : s.started.Sublist s.taken := by
        rw [hstarted, htaken]
        exact (List.filter_sublist.map Prod.fst).append (running_sublist_held s)
      have hfifo : s.pushed = s.taken ++ s.tasks := h.accounted.fifo
      rw [hfifo]
      exact hsub.trans (List.sublist_append_left _ _)

/-- A pool with one worker and two clients, one of which has pushed a task; the worker has
just taken it. -/
def oneTaskHeld : State :=
  { State.fresh 2 with
    workers := [2]
    threads := [.idle, .idle, .incRunning ⟨0, 0⟩]
    pushed := [⟨0, 0⟩]
    taken := [⟨0, 0⟩] }

lemma oneTaskHeld_reach : Reach oneTaskHeld := by
  have h₀ : Reach (State.fresh 2) := .of_init ⟨2, rfl⟩
  -- client 0 starts the pool
  have h₁ := ((h₀.tail ⟨0, .call .start rfl⟩).tail ⟨0, .lock rfl rfl rfl⟩).tail
    ⟨0, .startSpawn rfl rfl⟩
  -- client 0 pushes a task; nobody is blocked yet
  have h₂ := ((h₁.tail ⟨0, .call (.exec 0) rfl⟩).tail ⟨0, .lock rfl rfl rfl⟩).tail
    ⟨0, .push rfl (Or.inr ⟨by decide, rfl⟩)⟩
  -- the worker takes it
  exact ((h₂.tail ⟨2, .loopEnter rfl rfl⟩).tail ⟨2, .lock rfl rfl rfl⟩).tail
    ⟨2, .getTrue rfl rfl⟩

theorem task_conservation_oneTaskHeld :
    Conserved oneTaskHeld ∧ oneTaskHeld.Holds 2 ⟨0, 0⟩ ∧ oneTaskHeld.workerCount = 1 :=
  ⟨task_conservation oneTaskHeld_reach, ⟨_, rfl, rfl⟩, rfl⟩

end CppExample.ThreadPool
