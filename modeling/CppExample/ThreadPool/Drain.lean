/-
# The pool comes to rest

When nobody calls it any more, the pool comes to rest: its threads make a bounded number of steps,
apart from wake-ups without a notification and as long as no new worker is created.  Every task has
its share in the bound, and so have the notifications that wake all threads.

Where it rests, a pool with a worker that was not stopped has settled all its tasks, and no caller
is left in `wait_for_all_done`.  A pool that was stopped has no worker in `run` any more and nobody
in `stop`, so that `stop` never hangs in a `join`; here two calls of `stop` are kept apart, since
they would join the same `std::thread` objects.
-/
import CppExample.ThreadPool.AllDone
import CppExample.ThreadPool.Wakeup
import CppExample.ThreadPool.Restart

namespace CppExample.ThreadPool
open Lib

/-- What happens: a thread goes on; a blocked thread is woken without a notification, spuriously or
because its time is over; a client makes a call. -/
inductive Move where
  | run (i : ℕ)
  | wake (i : ℕ)
  | call (i : ℕ) (c : Call)
deriving DecidableEq, Repr

def Move.isRun : Move → Bool
  | run _ => true
  | _ => false

/-- The steps of the pool by what happens. -/
inductive Takes : Move → State → State → Prop
  | run {i : ℕ} {s t : State} {p : Pc} (h : s.threads[i]? = some p) (hidle : p ≠ .idle)
      (hb : p.woken = none) (hst : Step i s t) : Takes (.run i) s t
  | wake {i : ℕ} {s t : State} {p q : Pc} (h : s.threads[i]? = some p) (hb : p.woken = some q)
      (hst : Step i s t) : Takes (.wake i) s t
  | call {i : ℕ} {s : State} (c : Call) (h : s.threads[i]? = some .idle) :
      Takes (.call i c) s (s.goto i (s.enter c))

/-! ## The work that is left -/

/-- How many steps a thread can still make before it returns or blocks, with the wake-ups that it
brings about, in a pool with `n` threads. -/
def Pc.work (n : ℕ) (terminate : Bool) : Pc → ℕ
  | loopTest => if terminate then 1 else 3
  | getLock | getWoken => if terminate then 3 else 2
  | getBody _ => if terminate then 2 else 1
  | incRunning _ => 3 * n + 9
  | expiryTest _ => 3 * n + 8
  | body _ => 3 * n + 7
  | decRunning => 3 * n + 6
  | endLock => 3 * n + 5
  | endBody => 3 * n + 4
  | getBlocked | exited | idle => 0
  | initialLock _ | startLock => 2
  | initialBody _ | startBody => 1
  | execLock _ => 3 * n + 14
  | execBody _ => 3 * n + 13
  | waitLock _ _ => 3
  | waitBody _ _ | waitPred _ _ _ => 2
  | waitBlocked _ _ | waitRet _ _ => 1
  | waitWoken _ timedOut _ => if timedOut then 3 else 4
  | stopLock => 6 * n + 6
  | stopBody => 6 * n + 5
  | stopScan => 3 * n + 4
  | stopJoinable rest => 3 * rest.length + 3
  | stopJoin _ rest => 3 * rest.length + 5
  | stopDelete _ rest => 3 * rest.length + 4
  | stopLock2 => 2
  | stopClear => 1

/-- The work of all threads, and of the tasks in the queue. -/
def State.work (s : State) : ℕ :=
  total (Pc.work s.threads.length s.terminate) s.threads
    + (3 * s.threads.length + 9) * s.tasks.length

lemma work_of_afterLock {p q : Pc} (n : ℕ) (b : Bool) (h : p.afterLock = some q) :
    q.work n b + 1 ≤ p.work n b := by
  cases p with
  | waitWoken timed timedOut before => cases h; cases timedOut <;> simp [Pc.work]
  | _ => cases h <;> cases b <;> simp [Pc.work]

lemma work_of_woken {p q : Pc} (n : ℕ) (b b' : Bool) (h : p.woken = some q) :
    q.work n b' ≤ p.work n b + 3 := by
  cases p <;> cases h <;> cases b' <;> simp [Pc.work]

lemma afterLock_of_woken {p q : Pc} (h : p.woken = some q) : p.afterLock = none := by
  cases p <;> first | rfl | cases h

/-- `stop` makes the work of a thread more, since `get` returns to the test of the loop. -/
lemma work_terminate (n : ℕ) (b : Bool) (p : Pc) : p.work n true ≤ p.work n b + 3 := by
  cases p <;> cases b <;> simp [Pc.work]

lemma work_notifyAll (n : ℕ) (b b' : Bool) (hb : b = b' ∨ b' = true) (p : Pc) :
    ((p.woken).getD p).work n b' ≤ p.work n b + 3 := by
  cases hw : p.woken with
  | some q => exact work_of_woken n b b' hw
  | none =>
    rcases hb with rfl | rfl
    · exact Nat.le_add_right _ _
    · exact work_terminate n b p

section Work

variable {i : ℕ} {s t : State} {p q : Pc}

/-- A thread moves to a point with less work. -/
lemma work_move (h : s.threads[i]? = some p) {k : ℕ}
    (hq : q.work s.threads.length s.terminate + k ≤ p.work s.threads.length s.terminate)
    (hthreads : t.threads = s.threads.set i q) (hterm : t.terminate = s.terminate)
    (htasks : t.tasks = s.tasks) : t.work + k ≤ s.work := by
  have hset := total_set (f := Pc.work s.threads.length s.terminate) h q
  rw [State.work, State.work, hthreads, hterm, htasks, List.length_set]
  omega

/-- The vector of workers has no more entries than there are threads. -/
lemma Reach.length_workers_le (h : Reach s) : s.workers.length ≤ s.threads.length := by
  refine Reachable.invariant (I := fun s : State => s.workers.length ≤ s.threads.length) ?_ ?_ h
  · rintro s ⟨n, rfl⟩
    exact Nat.zero_le _
  · rintro s t - hs ⟨i, hst⟩
    have hlen := hst.length_le
    cases hst with
    | startSpawn h hw =>
      simp only [length_newWorkers, List.length_append, List.length_replicate]
      exact Nat.le_add_left _ _
    | stopCleared => exact Nat.zero_le _
    | _ => exact hs.trans hlen

/-- A thread wakes all threads. -/
lemma work_notify (h : s.threads[i]? = some p) (hw : p.woken = none) {b : Bool} {k : ℕ}
    (hb : s.terminate = b ∨ b = true)
    (hq : q.work s.threads.length b + 3 * s.threads.length + k
      ≤ p.work s.threads.length b)
    (hthreads : t.threads = (notifyAll Pc.woken s.threads).set i q) (hterm : t.terminate = b)
    (htasks : t.tasks = s.tasks) : t.work + k ≤ s.work := by
  have hp : (notifyAll Pc.woken s.threads)[i]? = some ((p.woken).getD p) := getElem?_notifyAll h
  rw [hw, Option.getD_none] at hp
  have hset := total_set (f := Pc.work s.threads.length b) hp q
  have hall := total_map_le (work_notifyAll s.threads.length s.terminate b hb) s.threads
  rw [← notifyAll] at hall
  have hlen : (notifyAll Pc.woken s.threads).length = s.threads.length := List.length_map _
  rw [State.work, State.work, hthreads, hterm, htasks, List.length_set, hlen]
  omega

/-- A thread that is neither outside nor blocked uses up work. -/
lemma Step.work (hst : Step i s t) (hp : s.threads[i]? = some p) (hidle : p ≠ .idle)
    (hb : p.woken = none) (hworkers : s.workers.length ≤ s.threads.length)
    (hlen : t.threads.length = s.threads.length) : t.work + 1 ≤ s.work := by
  have hsame : ∀ {p' : Pc}, s.threads[i]? = some p' → p = p' := fun h =>
    Option.some.inj (hp.symm.trans h)
  cases hst with
  | lock h hq => exact work_move h (work_of_afterLock _ _ hq) rfl rfl rfl
  | wake h hq =>
    rw [hsame h, hq] at hb
    cases hb
  | timeout h =>
    rw [hsame h] at hb
    cases hb
  | call c h => exact absurd (hsame h) hidle
  | @getTrue r x h hg =>
    obtain ⟨hterm, htasks⟩ := State.get_eq_some hg
    have hset := total_set (f := Pc.work s.threads.length s.terminate) h (.incRunning x)
    have htail := congrArg List.length htasks
    rw [List.length_cons] at htail
    simp only [State.work, State.leave, List.length_set, htail, mul_add, Pc.work, hterm] at hset ⊢
    simp only [Bool.false_eq_true, if_false] at hset
    omega
  | push h hn =>
    have hset := total_set (f := Pc.work s.threads.length s.terminate)
      (hn.getElem?_of_not_blocked h rfl) .idle
    have hwake := hn.total_le fun _ _ => work_of_woken s.threads.length s.terminate s.terminate
    rw [List.length_set] at hlen
    simp only [State.work, List.length_set, hlen, List.length_append, List.length_singleton,
      mul_add, Pc.work] at hset ⊢
    omega
  | startSpawn h hw =>
    have hzero : s.poolSize = 0 := by
      rw [List.length_append, List.length_set, List.length_replicate] at hlen
      omega
    refine work_move h (q := .idle) (by simp [Pc.work]) ?_ rfl rfl
    rw [hzero, List.replicate_zero, List.append_nil]
  | endNotify h =>
    refine work_notify h rfl (Or.inl rfl) ?_ rfl rfl rfl
    cases s.terminate <;> simp only [Pc.work, Bool.false_eq_true, if_true, if_false] <;> omega
  | stopSet h =>
    refine work_notify h rfl (b := true) (Or.inr rfl) ?_ rfl rfl rfl
    simp only [Pc.work]
    omega
  | loopExit h ht | loopEnter h ht => exact work_move h (by simp [Pc.work, ht]) rfl rfl rfl
  | getBlock h hg =>
    exact work_move h (by simp [Pc.work, (State.get_eq_block hg).1]) rfl rfl rfl
  | getFalse h hg => exact work_move h (by simp [Pc.work, State.get_eq_none hg]) rfl rfl rfl
  | endQuiet h =>
    refine work_move h ?_ rfl rfl rfl
    cases s.terminate <;> simp [Pc.work]
  | stopBegin h =>
    refine work_move h ?_ rfl rfl rfl
    simp only [Pc.work]
    omega
  | stopIsJoinable h | stopNotJoinable h =>
    refine work_move h ?_ rfl rfl rfl
    simp only [Pc.work, List.length_cons]
    omega
  | lateTimeout h | inc h | expire h | begin h | finish _ h | dec h | initialRefuse h
  | initialSet h | startRefuse h | waitNone h | waitBlock h | waitTrue h | waitFalse h
  | waitAgain h | waitDone h | stopJoined h | stopDeleted h | stopLoopEnd h | stopCleared h =>
    exact work_move h (by simp [Pc.work]) rfl rfl rfl

/-- A wake-up without a notification costs what it costs to wake a thread. -/
lemma Step.work_of_blocked (hst : Step i s t) (hp : s.threads[i]? = some p)
    (hb : p.woken = some q) : t.work ≤ s.work + 3 := by
  have hsame : ∀ {p' : Pc}, s.threads[i]? = some p' → p = p' := fun h =>
    Option.some.inj (hp.symm.trans h)
  have hmove : ∀ {q' : Pc}, q'.work s.threads.length s.terminate
      ≤ p.work s.threads.length s.terminate + 3 → (s.goto i q').work ≤ s.work + 3 := by
    intro q' hq'
    have hset := total_set (f := Pc.work s.threads.length s.terminate) hp q'
    simp only [State.work, State.goto, List.length_set]
    omega
  cases hst with
  | wake h hq =>
    rw [← hsame h] at hq
    exact hmove (work_of_woken _ _ _ hq)
  | timeout h =>
    refine hmove ?_
    rw [hsame h]
    simp [Pc.work]
  | lock h hq =>
    rw [← hsame h, afterLock_of_woken hb] at hq
    cases hq
  | call c h =>
    rw [hsame h] at hb
    cases hb
  | lateTimeout h | loopExit h | loopEnter h | getBlock h | getFalse h | getTrue h | inc h
  | expire h | begin h | finish _ h | dec h | endNotify h | endQuiet h | initialRefuse h
  | initialSet h | startRefuse h | startSpawn h | push h | waitNone h | waitBlock h | waitTrue h
  | waitFalse h | waitAgain h | waitDone h | stopSet h | stopBegin h | stopIsJoinable h
  | stopNotJoinable h | stopJoined h | stopDeleted h | stopLoopEnd h | stopCleared h =>
    rw [hsame h] at hb
    cases hb

lemma work_call (h : s.threads[i]? = some .idle) (c : Call) :
    (s.goto i (s.enter c)).work ≤ s.work + (6 * s.threads.length + 14) := by
  have hset := total_set (f := Pc.work s.threads.length s.terminate) h (s.enter c)
  have hidle : Pc.work s.threads.length s.terminate .idle = 0 := rfl
  have hcall : (s.enter c).work s.threads.length s.terminate ≤ 6 * s.threads.length + 14 := by
    cases c <;> simp only [State.enter, Pc.work] <;> omega
  simp only [State.work, State.goto, List.length_set]
  omega

end Work

/-! ## Runs -/

variable {m : Move} {s t : State} {moves : List Move}

lemma Takes.next (h : Takes m s t) : Next s t := by
  cases h with
  | run _ _ _ hst => exact ⟨_, hst⟩
  | wake _ _ hst => exact ⟨_, hst⟩
  | call c h => exact ⟨_, .call c h⟩

lemma length_le_of_takes (h : Trace Takes s moves t) : s.threads.length ≤ t.threads.length := by
  induction h with
  | nil s => exact le_refl _
  | cons hst _ ih =>
    obtain ⟨i, hst⟩ := hst.next
    exact hst.length_le.trans ih

lemma reach_of_takes (h : Reach s) (hrun : Trace Takes s moves t) : Reach t :=
  hrun.invariant (fun _ _ _ hs hst => hs.tail hst.next) h

/-- A step that creates no worker. -/
def TakesWithin (m : Move) (s t : State) : Prop :=
  Takes m s t ∧ t.threads.length = s.threads.length

lemma within_of_takes (hrun : Trace Takes s moves t)
    (hlen : t.threads.length = s.threads.length) : Trace TakesWithin s moves t := by
  induction hrun with
  | nil s => exact .nil s
  | @cons s u t m moves hst hrest ih =>
    obtain ⟨j, hnext⟩ := hst.next
    have hsu : u.threads.length = s.threads.length := by
      have := hnext.length_le
      have := length_le_of_takes hrest
      omega
    exact .cons ⟨hst, hsu⟩ (ih (hlen.trans hsu.symm))

/-- The steps of a run in which no worker is created. -/
lemma work_of_takes (h : Reach s) (hrun : Trace Takes s moves t)
    (hlen : t.threads.length = s.threads.length) :
    t.work + moves.countP Move.isRun
      ≤ s.work + (6 * s.threads.length + 14) * moves.countP (fun m => !m.isRun) := by
  refine (within_of_takes hrun hlen).add_countP_le
    (I := fun u => Reach u ∧ u.threads.length = s.threads.length) ?_ ?_ ?_ ⟨h, rfl⟩
  · rintro m u v ⟨hu, hn⟩ ⟨hst, hsame⟩
    exact ⟨hu.tail hst.next, hsame.trans hn⟩
  · rintro m u v ⟨hu, hn⟩ ⟨hst, hsame⟩ hm
    cases hst with
    | run hp hidle hb hst => exact hst.work hp hidle hb hu.length_workers_le hsame
    | wake | call => cases hm
  · rintro m u v ⟨hu, hn⟩ ⟨hst, hsame⟩ hm
    cases hst with
    | run => cases hm
    | wake hp hb hst =>
      have := hst.work_of_blocked hp hb
      omega
    | call c hp =>
      have := work_call hp c
      rwa [hn] at this

/-! ## Where the pool rests -/

/-- Nothing can happen but wake-ups without a notification and new calls. -/
def Resting (s : State) : Prop := ∀ i t, ¬ Takes (.run i) s t

/-- A thread with the mutex can go on, and so can one that needs it for nothing. -/
lemma exists_step_of_inside {i : ℕ} {p : Pc} (hp : s.threads[i]? = some p)
    (hin : p.inside = true) : ∃ t, Step i s t := by
  cases p with
  | getBody r =>
    cases hg : s.get r with
    | block => exact ⟨_, .getBlock hp hg⟩
    | ret task =>
      cases task with
      | none => exact ⟨_, .getFalse hp hg⟩
      | some x => exact ⟨_, .getTrue hp hg⟩
  | endBody =>
    by_cases hc : s.runningCount = 0 ∧ s.tasks = []
    · exact ⟨_, .endNotify hp hc⟩
    · exact ⟨_, .endQuiet hp hc⟩
  | initialBody num =>
    by_cases hw : s.workers = []
    · exact ⟨_, .initialSet hp hw⟩
    · exact ⟨_, .initialRefuse hp hw⟩
  | startBody =>
    by_cases hw : s.workers = []
    · exact ⟨_, .startSpawn hp hw⟩
    · exact ⟨_, .startRefuse hp hw⟩
  | execBody e =>
    obtain ⟨ts, hn⟩ := NotifyOne.exists_result Pc.woken s.threads
    exact ⟨_, .push hp hn⟩
  | waitBody timed before =>
    by_cases ht : s.tasks = []
    · exact ⟨_, .waitNone hp ht⟩
    · exact ⟨_, .waitBlock hp ht⟩
  | waitPred timed timedOut before =>
    by_cases ht : s.tasks = []
    · exact ⟨_, .waitTrue hp ht⟩
    · cases timedOut with
      | true => exact ⟨_, .waitFalse hp ht⟩
      | false => exact ⟨_, .waitAgain hp ht⟩
  | stopBody => exact ⟨_, .stopSet hp⟩
  | stopClear => exact ⟨_, .stopCleared hp⟩
  | _ => cases hin

/-- The points at which a thread can rest. -/
def Pc.rests (p : Pc) : Prop :=
  p = .idle ∨ p = .exited ∨ (∃ q, p.woken = some q) ∨ ∃ w rest, p = .stopJoin w rest

/-- A thread that neither rests nor has the mutex nor waits for it can go on. -/
lemma exists_step_of_outside {i : ℕ} {p : Pc} (hp : s.threads[i]? = some p) (hrest : ¬ p.rests)
    (hin : p.inside = false) (hlock : p.afterLock = none) : ∃ t, Step i s t := by
  cases p with
  | loopTest =>
    cases ht : s.terminate with
    | true => exact ⟨_, .loopExit hp ht⟩
    | false => exact ⟨_, .loopEnter hp ht⟩
  | incRunning x => exact ⟨_, .inc hp⟩
  | expiryTest x =>
    cases hx : x.expired 0 with
    | true => exact ⟨_, .expire hp hx⟩
    | false => exact ⟨_, .begin hp hx⟩
  | body x => exact ⟨_, .finish false hp⟩
  | decRunning => exact ⟨_, .dec hp⟩
  | waitRet result before => exact ⟨_, .waitDone hp⟩
  | stopScan => exact ⟨_, .stopBegin hp⟩
  | stopJoinable rest =>
    cases rest with
    | nil => exact ⟨_, .stopLoopEnd hp⟩
    | cons w rest =>
      by_cases hw : w ∈ s.joined
      · exact ⟨_, .stopNotJoinable hp hw⟩
      · exact ⟨_, .stopIsJoinable hp hw⟩
  | stopDelete w rest => exact ⟨_, .stopDeleted hp⟩
  | idle => exact absurd (Or.inl rfl) hrest
  | exited => exact absurd (Or.inr (Or.inl rfl)) hrest
  | getBlocked => exact absurd (Or.inr (Or.inr (Or.inl ⟨_, rfl⟩))) hrest
  | waitBlocked timed before => exact absurd (Or.inr (Or.inr (Or.inl ⟨_, rfl⟩))) hrest
  | stopJoin w rest => exact absurd (Or.inr (Or.inr (Or.inr ⟨w, rest, rfl⟩))) hrest
  | getBody _ | endBody | initialBody _ | startBody | execBody _ | waitBody _ _ | waitPred _ _ _
  | stopBody | stopClear => cases hin
  | getLock | getWoken | endLock | initialLock _ | startLock | execLock _ | waitLock _ _
  | waitWoken _ _ _ | stopLock | stopLock2 => cases hlock

lemma Resting.not_step (h : Resting s) {i : ℕ} {p : Pc} (hp : s.threads[i]? = some p)
    (hidle : p ≠ .idle) (hb : p.woken = none) : ¬ Step i s t :=
  fun hst => h i t (.run hp hidle hb hst)

/-- A thread with the mutex is neither outside nor blocked. -/
lemma free_of_inside {p : Pc} (h : p.inside = true) : p ≠ .idle ∧ p.woken = none := by
  constructor
  · rintro rfl
    cases h
  · cases p <;> first | rfl | cases h

/-- Where the pool rests, every thread does. -/
lemma Resting.rests (h : Resting s) (howned : Owned s) {i : ℕ} {p : Pc}
    (hp : s.threads[i]? = some p) : p.rests := by
  by_contra hrest
  have hfree : s.mutex = none := by
    cases hm : s.mutex with
    | none => rfl
    | some k =>
      obtain ⟨q, hq, hin⟩ := howned k hm
      obtain ⟨t, hst⟩ := exists_step_of_inside hq hin
      exact absurd hst (h.not_step hq (free_of_inside hin).1 (free_of_inside hin).2)
  have hne : p ≠ .idle := fun heq => hrest (Or.inl heq)
  have hb : p.woken = none := by
    cases hw : p.woken with
    | none => rfl
    | some q => exact absurd (Or.inr (Or.inr (Or.inl ⟨q, hw⟩))) hrest
  cases hlock : p.afterLock with
  | some q => exact h.not_step hp hne hb (.lock hp hlock hfree)
  | none =>
    cases hin : p.inside with
    | true =>
      obtain ⟨t, hst⟩ := exists_step_of_inside hp hin
      exact h.not_step hp hne hb hst
    | false =>
      obtain ⟨t, hst⟩ := exists_step_of_outside hp hrest hin hlock
      exact h.not_step hp hne hb hst

/-! ### A pool that is not stopped -/

/-- Everything is done: the queue is empty, every task that was pushed was run to its end or dropped
because its time was over, and the threads wait for work or for their clients. -/
structure Drained (s : State) : Prop where
  tasks : s.tasks = []
  settled : ∀ x ∈ s.pushed, s.Settled x
  threads : ∀ p ∈ s.threads, p = .idle ∨ p = .getBlocked

/-- Where nobody is on the way in a pool that was not stopped, the threads are idle or blocked. -/
lemma Resting.blocked (h : Resting s) (hs : Reach s) (hterm : s.terminate = false) {p : Pc}
    (hp : p ∈ s.threads) : p = .idle ∨ p = .getBlocked ∨ p.waiting = true := by
  obtain ⟨i, hi⟩ := List.getElem?_of_mem hp
  have hstop := (hs.live hterm).no_stop p hp
  rcases h.rests hs.mutex_owned hi with rfl | rfl | ⟨q, hq⟩ | ⟨w, rest, rfl⟩
  · exact Or.inl rfl
  · cases hstop
  · cases p with
    | getBlocked => exact Or.inr (Or.inl rfl)
    | waitBlocked timed before => exact Or.inr (Or.inr rfl)
    | _ => cases hq
  · cases hstop

lemma Resting.drained (h : Resting s) (hs : Reach s) (hworkers : s.workers ≠ [])
    (hterm : s.terminate = false) : Drained s := by
  have hall := fun p => h.blocked hs hterm (p := p)
  have hnot : ∀ p ∈ s.threads, p.awake = false ∧ p.inRound = false ∧ p.held = none := by
    intro p hp
    rcases hall p hp with rfl | rfl | hw
    · exact ⟨rfl, rfl, rfl⟩
    · exact ⟨rfl, rfl, rfl⟩
    · cases p <;> first | exact ⟨rfl, rfl, rfl⟩ | cases hw
  -- a task in the queue would have a worker that is awake
  have htasks : s.tasks = [] := by
    by_contra hne
    obtain ⟨p, hp, hawake⟩ := hs.served hterm hworkers hne
    rw [(hnot p hp).1] at hawake
    cases hawake
  refine ⟨htasks, fun x hx => hs.settled_of_empty hx htasks fun i hi => ?_, fun p hp => ?_⟩
  · obtain ⟨p, hp, hheld⟩ := hi
    rw [(hnot p (List.mem_of_getElem? hp)).2.2] at hheld
    cases hheld
  · rcases hall p hp with hidle | hblocked | hw
    · exact Or.inl hidle
    · exact Or.inr hblocked
    · -- a caller in `wait_for_all_done` would have something to wait for
      rcases hs.awaited ⟨p, hp, hw⟩ with hne | ⟨q, hq, hround⟩
      · exact absurd htasks hne
      · rw [(hnot q hq).2.1] at hround
        cases hround

/-- **A pool that is left alone comes to rest, with everything done.**  As long as no worker is
created, the number of steps of a run is bounded by the work there is at its beginning and by the
calls and the wake-ups without a notification.  And where a pool with a worker rests that was not
stopped, all tasks that were ever pushed are settled, and nobody is left in `wait_for_all_done`. -/
theorem pool_drains (h : Reach s) (hrun : Trace Takes s moves t) :
    (t.threads.length = s.threads.length →
        moves.countP Move.isRun
          ≤ s.work + (6 * s.threads.length + 14) * moves.countP (fun m => !m.isRun)) ∧
      (Resting t → t.workers ≠ [] → t.terminate = false → Drained t) := by
  refine ⟨fun hlen => ?_, fun hrest hworkers hterm =>
    hrest.drained (reach_of_takes h hrun) hworkers hterm⟩
  have := work_of_takes h hrun hlen
  omega

lemma resting_of_quiet (h : ∀ p ∈ s.threads, p = .idle ∨ p = .exited ∨ p.woken ≠ none) :
    Resting s := by
  rintro i t (⟨hp, hidle, hb, hst⟩ | _)
  rcases h _ (List.mem_of_getElem? hp) with h0 | rfl | hne
  · exact hidle h0
  · exact hst.ne_exited hp
  · exact hne hb

/-- The pool of `blockedCaller`, when its worker has run the task and is blocked. -/
def drainedPool : State :=
  { blockedCaller with
    tasks := []
    threads := [.idle, .idle, .getBlocked]
    taken := [⟨0, 0⟩]
    started := [⟨0, 0⟩]
    settled := [(⟨0, 0⟩, .ran false)] }

def drainedMoves : List Move :=
  [.run 2, .run 2, .run 2, .run 2, .run 2, .run 2, .run 2, .run 2, .run 2, .run 2, .run 2, .run 2,
    .run 1, .run 1, .run 1]

lemma drainedPool_trace : Trace Takes blockedCaller drainedMoves drainedPool := by
  -- the worker takes the task and runs it
  refine .cons (.run rfl nofun rfl (.loopEnter rfl rfl)) ?_
  refine .cons (.run rfl nofun rfl (.lock rfl rfl rfl)) ?_
  refine .cons (.run rfl nofun rfl (.getTrue rfl rfl)) ?_
  refine .cons (.run rfl nofun rfl (.inc rfl)) ?_
  refine .cons (.run rfl nofun rfl (@Step.begin 2 _ ⟨0, 0⟩ 0 rfl rfl)) ?_
  refine .cons (.run rfl nofun rfl (.finish false rfl)) ?_
  refine .cons (.run rfl nofun rfl (.dec rfl)) ?_
  -- it wakes everybody, and finds nothing more to do
  refine .cons (.run rfl nofun rfl (.lock rfl rfl rfl)) ?_
  refine .cons (.run rfl nofun rfl (.endNotify rfl ⟨rfl, rfl⟩)) ?_
  refine .cons (.run rfl nofun rfl (.loopEnter rfl rfl)) ?_
  refine .cons (.run rfl nofun rfl (.lock rfl rfl rfl)) ?_
  refine .cons (.run rfl nofun rfl (.getBlock rfl rfl)) ?_
  -- the caller returns
  refine .cons (.run rfl nofun rfl (.lock rfl rfl rfl)) ?_
  refine .cons (.run rfl nofun rfl (.waitTrue rfl rfl)) ?_
  refine .cons (.run rfl nofun rfl (.waitDone rfl)) ?_
  exact .nil _

theorem pool_drains_sample : drainedMoves.countP Move.isRun ≤ blockedCaller.work ∧
    Drained drainedPool := by
  obtain ⟨hbound, hdrained⟩ := pool_drains blockedCaller_reach drainedPool_trace
  refine ⟨hbound rfl, hdrained (resting_of_quiet ?_) (List.cons_ne_nil _ _) rfl⟩
  simp [drainedPool, Pc.woken]

/-! ### A pool that was stopped -/

/-- The workers that a thread in `stop` has still to go through. -/
def Pc.joins (p : Pc) : List ℕ := p.sweep.elim [] Prod.fst

/-- Thread `w` is a worker. -/
def State.WorkerAt (s : State) (w : ℕ) : Prop := ∃ p, s.threads[w]? = some p ∧ p.isWorker = true

section Stopped

variable {i : ℕ} {s t : State} {p : Pc}

/-- A worker stays a worker. -/
lemma Step.workerAt (hst : Step i s t) {w : ℕ} (hw : s.WorkerAt w) : t.WorkerAt w := by
  obtain ⟨p, hp, hworker⟩ := hw
  by_cases hiw : i = w
  · subst hiw
    have hsame : ∀ {p' : Pc}, s.threads[i]? = some p' → p = p' := fun h =>
      Option.some.inj (hp.symm.trans h)
    have hself : ∀ {ts : List Pc} {p' q : Pc}, ts[i]? = some p' → q.isWorker = true →
        ∃ q', (ts.set i q)[i]? = some q' ∧ q'.isWorker = true := fun h hq =>
      ⟨_, getElem?_set_self_of_getElem? h _, hq⟩
    cases hst with
    | lock h hq => exact hself h (by rw [isWorker_of_afterLock hq, ← hsame h, hworker])
    | wake h hq => exact hself h (by rw [isWorker_of_woken hq, ← hsame h, hworker])
    | endNotify h => exact hself (getElem?_notifyAll h) rfl
    | loopExit h | loopEnter h | getBlock h | getFalse h | getTrue h | inc h | expire h | begin h
    | finish _ h | dec h | endQuiet h => exact hself h rfl
    | timeout h | lateTimeout h | call _ h | initialRefuse h | initialSet h | startRefuse h
    | startSpawn h | push h | waitNone h | waitBlock h | waitTrue h | waitFalse h | waitAgain h
    | waitDone h | stopSet h | stopBegin h | stopIsJoinable h | stopNotJoinable h | stopJoined h
    | stopDeleted h | stopLoopEnd h | stopCleared h =>
      rw [hsame h] at hworker
      cases hworker
  · rcases hst.of_other hiw hp with h' | ⟨q, hq, h'⟩
    · exact ⟨p, h', hworker⟩
    · exact ⟨q, h', (isWorker_of_woken hq).trans hworker⟩

/-- `stop` goes through workers only. -/
lemma Step.joins (hst : Step i s t) (hworkers : ∀ w ∈ s.workers, s.WorkerAt w)
    (hs : ∀ p ∈ s.threads, ∀ w ∈ p.joins, s.WorkerAt w) :
    ∀ p ∈ t.threads, ∀ w ∈ p.joins, s.WorkerAt w := by
  have hat : ∀ {p : Pc}, s.threads[i]? = some p → ∀ w ∈ p.joins, s.WorkerAt w := fun h =>
    hs _ (List.mem_of_getElem? h)
  have hnil : ∀ w ∈ ([] : List ℕ), s.WorkerAt w := fun w hw => absurd hw List.not_mem_nil
  refine hst.forall_threads (fun p q h hp => ?_) hnil (fun q hq => ?_) hs
  · rw [Pc.joins, sweep_of_woken h]
    exact hp
  cases hst with
  | lock h hq' =>
    obtain rfl := eq_of_getElem?_set hq
    rw [Pc.joins, sweep_of_afterLock hq']
    exact hat h
  | wake h hq' =>
    obtain rfl := eq_of_getElem?_set hq
    rw [Pc.joins, sweep_of_woken hq']
    exact hat h
  | call c h =>
    obtain rfl := eq_of_getElem?_set hq
    cases c <;> exact hnil
  | startSpawn h _ =>
    obtain rfl := eq_idle_of_spawn h hq
    exact hnil
  | stopBegin h =>
    obtain rfl := eq_of_getElem?_set hq
    exact hworkers
  | stopIsJoinable h | stopNotJoinable h | stopJoined h =>
    obtain rfl := eq_of_getElem?_set hq
    have hp := hat h
    exact hp
  | stopDeleted h =>
    obtain rfl := eq_of_getElem?_set hq
    exact fun w hw => hat h w (List.mem_cons_of_mem _ hw)
  | _ =>
    obtain rfl := eq_of_getElem?_set hq
    exact hnil

lemma Reach.workerAt (h : Reach s) : (∀ w ∈ s.workers, s.WorkerAt w) ∧
    ∀ p ∈ s.threads, ∀ w ∈ p.joins, s.WorkerAt w := by
  refine Reachable.invariant (I := fun s : State => (∀ w ∈ s.workers, s.WorkerAt w) ∧
    ∀ p ∈ s.threads, ∀ w ∈ p.joins, s.WorkerAt w) ?_ ?_ h
  · rintro s ⟨n, rfl⟩
    refine ⟨fun w hw => absurd hw List.not_mem_nil, fun p hp w hw => ?_⟩
    rw [(List.mem_replicate.1 hp).2] at hw
    cases hw
  · rintro s t - ⟨hworkers, hjoins⟩ ⟨i, hst⟩
    have hkeep : ∀ w, s.WorkerAt w → t.WorkerAt w := fun w => hst.workerAt
    refine ⟨fun w hw => ?_, fun p hp w hw => hkeep w (hst.joins hworkers hjoins p hp w hw)⟩
    cases hst with
    | startSpawn h hnone =>
      obtain ⟨k, hk, rfl⟩ := List.mem_map.1 hw
      refine ⟨.loopTest, ?_, rfl⟩
      rw [List.getElem?_append_right (by rw [List.length_set]; omega), List.length_set,
        Nat.add_sub_cancel_left, List.getElem?_replicate, if_pos (List.mem_range.1 hk)]
    | stopCleared => cases hw
    | _ => exact hkeep w (hworkers w hw)

/-- Once `_terminate` is set, no worker is blocked in `get`. -/
lemma Step.not_getBlocked (hst : Step i s t)
    (hs : s.terminate = true → ∀ p ∈ s.threads, p ≠ .getBlocked) (ht : t.terminate = true) :
    ∀ p ∈ t.threads, p ≠ .getBlocked := by
  have hwoken : ∀ p q : Pc, p.woken = some q → p ≠ .getBlocked → q ≠ .getBlocked := by
    intro p q h _
    cases p <;> cases h <;> nofun
  cases hterm : s.terminate with
  | false =>
    cases hst with
    | stopSet h =>
      intro p hp
      rcases List.mem_or_eq_of_mem_set hp with hp | rfl
      · obtain ⟨a, -, rfl⟩ := List.mem_map.1 hp
        cases a <;> nofun
      · nofun
    | _ =>
      have hfalse : s.terminate = true := ht
      rw [hterm] at hfalse
      cases hfalse
  | true =>
    refine hst.forall_threads hwoken nofun (fun q hq => ?_) (hs hterm)
    cases hst with
    | lock h hq' =>
      obtain rfl := eq_of_getElem?_set hq
      rintro rfl
      rename_i p _
      cases p <;> cases hq'
    | wake h hq' =>
      obtain rfl := eq_of_getElem?_set hq
      exact hwoken _ _ hq' (hs hterm _ (List.mem_of_getElem? h))
    | call c h =>
      obtain rfl := eq_of_getElem?_set hq
      cases c <;> nofun
    | startSpawn h _ =>
      obtain rfl := eq_idle_of_spawn h hq
      nofun
    | getBlock h hg =>
      rw [(State.get_eq_block hg).1] at hterm
      cases hterm
    | _ =>
      obtain rfl := eq_of_getElem?_set hq
      nofun

lemma Reach.not_getBlocked (h : Reach s) (hterm : s.terminate = true) :
    ∀ p ∈ s.threads, p ≠ .getBlocked := by
  refine Reachable.invariant
    (I := fun s : State => s.terminate = true → ∀ p ∈ s.threads, p ≠ .getBlocked) ?_ ?_ h hterm
  · rintro s ⟨n, rfl⟩ ht
    cases ht
  · rintro s t - hs ⟨i, hst⟩
    exact hst.not_getBlocked hs

end Stopped

/-- **`stop` never hangs.**  In a run in which no `stop` begins its loop over some workers, and no
`start` creates some, while a thread is between the beginning of this loop and the clear: where the
pool rests and was stopped, nobody is inside `stop`, in a `join` in particular.  Every worker has
left `run`, and the other threads are outside the pool or blocked in `wait_for_all_done`; every task
that was pushed is settled or still in the queue. -/
theorem stop_returns (hapart : Reachable Init ApartNext s) (hrest : Resting s)
    (hterm : s.terminate = true) :
    (∀ p ∈ s.threads, p = .idle ∨ p = .exited ∨ p.waiting = true) ∧
      ∀ x ∈ s.pushed, s.Settled x ∨ x ∈ s.tasks := by
  have h : Reach s := hapart.mono fun _ _ ⟨i, hst, _⟩ => ⟨i, hst⟩
  have hblocked := h.not_getBlocked hterm
  have hworker : ∀ {w : ℕ} {p : Pc}, s.threads[w]? = some p → p.isWorker = true → p = .exited := by
    intro w p hp hw
    rcases hrest.rests h.mutex_owned hp with rfl | hexit | ⟨q, hq⟩ | ⟨w', rest, rfl⟩
    · cases hw
    · exact hexit
    · cases p with
      | getBlocked => exact absurd rfl (hblocked _ (List.mem_of_getElem? hp))
      | waitBlocked timed before => cases hw
      | _ => cases hq
    · cases hw
  have hall : ∀ p ∈ s.threads, p = .idle ∨ p = .exited ∨ p.waiting = true := by
    intro p hp
    obtain ⟨i, hi⟩ := List.getElem?_of_mem hp
    rcases hrest.rests h.mutex_owned hi with hidle | hexit | ⟨q, hq⟩ | ⟨w, rest, rfl⟩
    · exact Or.inl hidle
    · exact Or.inr (Or.inl hexit)
    · cases p with
      | getBlocked => exact absurd rfl (hblocked _ hp)
      | waitBlocked timed before => exact Or.inr (Or.inr rfl)
      | _ => cases hq
    · -- the worker that is waited for has left `run`, so that the `join` can return
      obtain ⟨q, hq, hqw⟩ := h.workerAt.2 _ hp w List.mem_cons_self
      rw [hworker hq hqw] at hq
      exact absurd (.stopJoined hi hq) (hrest.not_step hi nofun rfl)
  refine ⟨hall, fun x hx => ?_⟩
  have hheld : s.held = [] := by
    rw [State.held, List.filterMap_eq_nil_iff]
    intro p hp
    rcases hall p hp with rfl | rfl | hw
    · rfl
    · rfl
    · cases p <;> first | rfl | cases hw
  have hone := h.one_place hx
  by_cases hmem : x ∈ s.tasks
  · exact Or.inr hmem
  · rw [hheld, List.count_nil, List.count_eq_zero.2 hmem] at hone
    refine Or.inl (settled_iff.2 ?_)
    omega

/-- The pool of `stoppedPool`, when `stop` has returned. -/
def stopReturned : State := { stoppedPool.leave 0 .idle with workers := [] }

lemma stopReturned_reachable : Reachable Init ApartNext stopReturned := by
  have h : Reachable Init ApartNext stoppedPool :=
    stoppedPool_reachable.mono fun _ _ hst => hst.apartNext
  exact h.tail (Step.apartNext_of_ne (i := 0) (.stopCleared rfl) (by decide) (by decide))

theorem stop_returns_sample : stopReturned.Settled ⟨0, 0⟩ ∧ ⟨1, 0⟩ ∈ stopReturned.tasks := by
  have hrest : Resting stopReturned := by
    refine resting_of_quiet ?_
    simp [stopReturned, stoppedPool, State.leave]
  obtain ⟨-, htasks⟩ := stop_returns stopReturned_reachable hrest rfl
  refine ⟨(htasks ⟨0, 0⟩ (by decide)).resolve_right (by decide), by decide⟩

end CppExample.ThreadPool
