/-
# No lost wake-up

Workers and callers of `wait_for_all_done` block on the same condition variable, and `exec`
notifies only one thread, which may be of the wrong kind.  No task is stranded by that: a
caller is blocked only while the queue is not empty or a worker is in a round, and in both
cases there is a worker that is not blocked.

The argument rests on four facts about every reachable state, one for each section:
`running_count` counts the workers between its increment and its decrement; the members of
`_workers` are the workers, as long as the pool is not terminated; a blocked caller has
something to wait for; and a task in the queue has somebody to take it.
-/
import CppExample.ThreadPool.Conservation

namespace CppExample.ThreadPool
open Lib

namespace Pc

/-- The points between `++running_count` and `--running_count`. -/
def counted : Pc → Bool
  | expiryTest _ | body _ | decRunning => true
  | _ => false

/-- The points between taking a task and the check at the end of the round. -/
def inRound : Pc → Bool
  | incRunning _ | expiryTest _ | body _ | decRunning | endLock | endBody => true
  | _ => false

/-- A worker that is neither blocked in `get` nor has left `run`. -/
def awake : Pc → Bool
  | getBlocked | exited => false
  | p => p.isWorker

/-- A caller of `wait_for_all_done` that is blocked. -/
def waiting : Pc → Bool
  | waitBlocked _ _ => true
  | _ => false

/-- The points that are reached only after `stop` has set `_terminate`. -/
def afterStop : Pc → Bool
  | exited | stopScan | stopJoinable _ | stopJoin _ _ | stopDelete _ _ | stopLock2
  | stopClear => true
  | _ => false

end Pc

lemma awake_of_inRound {p : Pc} (h : p.inRound = true) : p.awake = true := by
  cases p <;> first | rfl | cases h

lemma inRound_of_counted {p : Pc} (h : p.counted = true) : p.inRound = true := by
  cases p <;> first | rfl | cases h

lemma isWorker_of_awake {p : Pc} (h : p.awake = true) : p.isWorker = true := by
  cases p <;> first | rfl | cases h

/-! ## The counter -/

/-- The number of workers that count as running. -/
def State.runningTotal (s : State) : ℤ := total (fun p => if p.counted then 1 else 0) s.threads

lemma counted_of_woken {p q : Pc} (h : p.woken = some q) : q.counted = p.counted := by
  cases p <;> cases h <;> rfl

lemma counted_of_afterLock {p q : Pc} (h : p.afterLock = some q) : q.counted = p.counted := by
  cases p <;> cases h <;> rfl

/-- `running_count` is the number of workers that count as running. -/
lemma Step.runningCount {i : ℕ} {s t : State} (hst : Step i s t)
    (hs : s.runningCount = s.runningTotal) : t.runningCount = t.runningTotal := by
  have hwoken : ∀ p q : Pc, p.woken = some q →
      (if q.counted then (1 : ℤ) else 0) = if p.counted then 1 else 0 :=
    fun p q h => by rw [counted_of_woken h]
  -- a move between points that count the same
  have hmove : ∀ {ts : List Pc} {p q : Pc}, ts[i]? = some p → q.counted = p.counted →
      s.runningCount = total (fun p => if p.counted then (1 : ℤ) else 0) ts →
      s.runningCount = total (fun p => if p.counted then (1 : ℤ) else 0) (ts.set i q) :=
    fun h hq hts => hts.trans (total_set_of_eq h (by rw [hq])).symm
  rw [State.runningTotal] at hs ⊢
  cases hst with
  | lock h hq => exact hmove h (counted_of_afterLock hq) hs
  | wake h hq => exact hmove h (counted_of_woken hq) hs
  | @inc x h =>
    have := total_set (f := fun p : Pc => if p.counted then (1 : ℤ) else 0) h (.expiryTest x)
    simp only [Pc.counted, Bool.false_eq_true, if_false, if_true, add_zero] at this
    exact (congrArg (· + 1) hs).trans this.symm
  | dec h =>
    have := total_set (f := fun p : Pc => if p.counted then (1 : ℤ) else 0) h .endLock
    simp only [Pc.counted, Bool.false_eq_true, if_false, if_true, add_zero] at this
    exact (congrArg (· - 1) hs).trans (eq_sub_of_add_eq this).symm
  | call c h => exact hmove h (by cases c <;> rfl) hs
  | endNotify h _ | stopSet h =>
    exact hmove (getElem?_notifyAll h) (by rfl) (hs.trans (total_notifyAll hwoken _).symm)
  | push h hn =>
    exact hmove (hn.getElem?_of_not_blocked h rfl) rfl (hs.trans (hn.total_eq hwoken).symm)
  | startSpawn h _ =>
    have hnew : total (fun p : Pc => if p.counted then (1 : ℤ) else 0)
        (List.replicate s.poolSize .loopTest) = 0 := by simp [total, Pc.counted]
    rw [total_append, hnew, add_zero]
    exact hmove h rfl hs
  | timeout h | lateTimeout h | loopExit h | loopEnter h | getBlock h | getFalse h | getTrue h
  | expire h | begin h | finish _ h | endQuiet h | initialRefuse h | initialSet h | startRefuse h
  | waitNone h | waitBlock h | waitTrue h | waitFalse h | waitAgain h | waitDone h | stopBegin h
  | stopIsJoinable h | stopNotJoinable h | stopJoined h | stopDeleted h | stopLoopEnd h
  | stopCleared h =>
    exact hmove h rfl hs

lemma Reach.runningCount {s : State} (h : Reach s) : s.runningCount = s.runningTotal := by
  refine Reachable.invariant (I := fun s : State => s.runningCount = s.runningTotal) ?_ ?_ h
  · rintro s ⟨n, rfl⟩
    simp [State.runningTotal, State.fresh, total, Pc.counted]
  · rintro s t - hs ⟨i, hst⟩
    exact hst.runningCount hs

/-! ## The workers of a pool that is not stopped -/

/-- A pool whose `_terminate` is not set: nobody is behind that point of `stop`, no worker
has left `run`, and `_workers` has the workers. -/
structure Live (s : State) : Prop where
  no_stop : ∀ p ∈ s.threads, p.afterStop = false
  workers : ∀ i, i ∈ s.workers ↔ (s.threads.map Pc.isWorker)[i]? = some true

lemma afterStop_of_woken {p q : Pc} (h : p.woken = some q) : q.afterStop = p.afterStop := by
  cases p <;> cases h <;> rfl

lemma afterStop_of_afterLock {p q : Pc} (h : p.afterLock = some q) :
    q.afterStop = p.afterStop := by
  cases p <;> cases h <;> rfl

/-- `_terminate` is never taken back. -/
lemma Step.terminate_eq_false {i : ℕ} {s t : State} (hst : Step i s t)
    (ht : t.terminate = false) : s.terminate = false := by
  cases hst with
  | stopSet => cases ht
  | _ => exact ht

lemma Step.terminate_eq_true {i : ℕ} {s t : State} (hst : Step i s t)
    (hs : s.terminate = true) : t.terminate = true := by
  by_contra ht
  have hfalse := hst.terminate_eq_false (Bool.eq_false_of_not_eq_true ht)
  exact Bool.false_ne_true (hfalse.symm.trans hs)

lemma Live.of_move {s t : State} (hs : Live s) {ts : List Pc} {i : ℕ} {p q : Pc}
    (hts : ∀ p ∈ ts, p.afterStop = false) (hmap : ts.map Pc.isWorker = s.threads.map Pc.isWorker)
    (h : ts[i]? = some p) (hthreads : t.threads = ts.set i q) (hstop : q.afterStop = false)
    (hworker : q.isWorker = p.isWorker) (hworkers : t.workers = s.workers) : Live t := by
  constructor
  · rw [hthreads]
    exact forall_mem_set hts i hstop
  · rw [hthreads, hworkers, map_set_of_eq h hworker, hmap]
    exact hs.workers

lemma Live.startSpawn {s t : State} (hs : Live s) {i : ℕ} (h : s.threads[i]? = some .startBody)
    (hw : s.workers = []) (hworkers : t.workers = s.newWorkers)
    (hthreads : t.threads = s.threads.set i .idle ++ List.replicate s.poolSize .loopTest) :
    Live t := by
  constructor
  · rw [hthreads]
    intro p hp
    rcases List.mem_append.1 hp with hp | hp
    · exact forall_mem_set (b := .idle) hs.no_stop i rfl p hp
    · rw [(List.mem_replicate.1 hp).2]
      rfl
  · intro j
    have hmap : t.threads.map Pc.isWorker
        = s.threads.map Pc.isWorker ++ List.replicate s.poolSize true := by
      rw [hthreads, List.map_append, map_set_of_eq h (by rfl), List.map_replicate]
      rfl
    rw [hworkers, hmap, State.newWorkers]
    by_cases hj : j < s.threads.length
    · -- the threads that were there are not workers
      have hold := hs.workers j
      rw [hw] at hold
      rw [List.getElem?_append_left (by rwa [List.length_map]), ← hold]
      simp only [List.mem_map, List.not_mem_nil, iff_false, not_exists, not_and]
      omega
    · rw [List.getElem?_append_right (by rw [List.length_map]; omega), List.length_map,
        List.getElem?_replicate]
      simp only [List.mem_map, List.mem_range]
      constructor
      · rintro ⟨k, hk, rfl⟩
        rw [if_pos (by omega)]
      · intro hlt
        refine ⟨j - s.threads.length, ?_, by omega⟩
        by_contra hge
        rw [if_neg hge] at hlt
        cases hlt

lemma Step.live {i : ℕ} {s t : State} (hst : Step i s t) (hs : Live s)
    (ht : t.terminate = false) : Live t := by
  have hat : ∀ {p : Pc}, s.threads[i]? = some p → p.afterStop = false := fun h =>
    hs.no_stop _ (List.mem_of_getElem? h)
  have hwoken : ∀ p q : Pc, p.woken = some q → p.afterStop = false → q.afterStop = false :=
    fun p q h hp => (afterStop_of_woken h).trans hp
  have hall := forall_mem_notifyAll hwoken hs.no_stop
  have hmap := map_notifyAll (fun p q => isWorker_of_woken (p := p) (q := q)) s.threads
  cases hst with
  | lock h hq =>
    exact hs.of_move hs.no_stop rfl h rfl ((afterStop_of_afterLock hq).trans (hat h))
      (isWorker_of_afterLock hq) rfl
  | wake h hq =>
    exact hs.of_move hs.no_stop rfl h rfl (hwoken _ _ hq (hat h)) (isWorker_of_woken hq) rfl
  | call c h =>
    exact hs.of_move hs.no_stop rfl h rfl (by cases c <;> rfl) (by cases c <;> rfl) rfl
  | endNotify h _ => exact hs.of_move hall hmap (getElem?_notifyAll h) rfl rfl rfl rfl
  | push h hn =>
    exact hs.of_move (hn.forall_mem hwoken hs.no_stop) (hn.map_eq fun p q => isWorker_of_woken)
      (hn.getElem?_of_not_blocked h rfl) rfl rfl rfl rfl
  | startSpawn h hw => exact hs.startSpawn h hw rfl rfl
  | stopSet => cases ht
  | loopExit _ hterm =>
    have hf : s.terminate = false := ht
    rw [hf] at hterm
    cases hterm
  | stopBegin h | stopIsJoinable h | stopNotJoinable h | stopJoined h | stopDeleted h
  | stopLoopEnd h | stopCleared h => cases hat h
  | timeout h | lateTimeout h | loopEnter h | getBlock h | getFalse h | getTrue h | inc h
  | expire h | begin h | finish _ h | dec h | endQuiet h | initialRefuse h | initialSet h
  | startRefuse h | waitNone h | waitBlock h | waitTrue h | waitFalse h | waitAgain h
  | waitDone h => exact hs.of_move hs.no_stop rfl h rfl rfl rfl rfl

lemma Reach.live {s : State} (h : Reach s) (hs : s.terminate = false) : Live s := by
  refine Reachable.invariant (I := fun s : State => s.terminate = false → Live s) ?_ ?_ h hs
  · rintro s ⟨n, rfl⟩ -
    constructor
    · intro p hp
      rw [(List.mem_replicate.1 hp).2]
      rfl
    · intro i
      simp [State.fresh, Pc.isWorker, List.getElem?_replicate]
  · rintro s t - hs ⟨i, hst⟩ ht
    exact hst.live (hs (hst.terminate_eq_false ht)) ht

/-! ## What a blocked caller waits for -/

/-- While a caller of `wait_for_all_done` is blocked, there is a task in the queue or a
worker in a round. -/
def Awaited (s : State) : Prop :=
  (∃ p ∈ s.threads, p.waiting = true) → s.tasks ≠ [] ∨ ∃ p ∈ s.threads, p.inRound = true

lemma waiting_of_woken {p q : Pc} (h : p.woken = some q) : q.waiting = false := by
  cases p <;> cases h <;> rfl

lemma not_waiting_notifyAll {ts : List Pc} {p : Pc} (h : p ∈ notifyAll Pc.woken ts) :
    p.waiting = false := by
  obtain ⟨a, -, rfl⟩ := List.mem_map.1 h
  cases hw : a.woken with
  | some b => exact waiting_of_woken hw
  | none => cases a <;> first | rfl | cases hw

/-- A move that brings no new caller, takes no worker out of a round and leaves the queue. -/
lemma Awaited.of_move {s t : State} (hs : Awaited s) {i : ℕ} {p q : Pc}
    (h : s.threads[i]? = some p) (hthreads : t.threads = s.threads.set i q)
    (hwait : q.waiting = true → p.waiting = true) (hround : p.inRound = true → q.inRound = true)
    (htasks : t.tasks = s.tasks) : Awaited t := by
  rw [Awaited, hthreads, htasks]
  intro hex
  rcases hs (exists_mem_of_set h hwait hex) with hne | hr
  · exact Or.inl hne
  · exact Or.inr (exists_mem_set h hround hr)

/-- A worker that ends its round without a notification leaves a task in the queue or
another worker that is still in its round. -/
lemma Reach.awaited_of_endQuiet {s : State} (hs : Reach s) {i : ℕ}
    (h : s.threads[i]? = some .endBody) (hc : ¬ (s.runningCount = 0 ∧ s.tasks = [])) :
    s.tasks ≠ [] ∨ ∃ p ∈ s.threads.set i .loopTest, p.inRound = true := by
  by_cases htasks : s.tasks = []
  · right
    have hcount : s.runningTotal ≠ 0 := by
      rw [← hs.runningCount]
      exact fun h0 => hc ⟨h0, htasks⟩
    obtain ⟨p, hp, hne⟩ := exists_mem_of_total_ne_zero hcount
    have hcounted : p.counted = true := by
      by_contra hnot
      exact hne (if_neg hnot)
    obtain ⟨q, hq, hqc⟩ := exists_mem_set (f := Pc.counted) (b := .loopTest) h
      (by intro hf; cases hf) ⟨p, hp, hcounted⟩
    exact ⟨q, hq, inRound_of_counted hqc⟩
  · exact Or.inl htasks

lemma Step.awaited {i : ℕ} {s t : State} (hreach : Reach s) (hst : Step i s t)
    (hs : Awaited s) : Awaited t := by
  cases hst with
  | lock h hq =>
    rename_i p q _
    exact hs.of_move h rfl (by cases p <;> cases hq <;> exact fun h => h)
      (by cases p <;> cases hq <;> exact fun h => h) rfl
  | wake h hq =>
    rename_i p q
    exact hs.of_move h rfl (fun hw => by rw [waiting_of_woken hq] at hw; cases hw)
      (by cases p <;> cases hq <;> exact fun h => h) rfl
  | call c h =>
    exact hs.of_move h rfl (by cases c <;> exact fun h => h) (by cases c <;> exact fun h => h) rfl
  | getTrue h hg =>
    exact fun _ => Or.inr ⟨_, List.mem_of_getElem? (getElem?_set_self_of_getElem? h _), rfl⟩
  | waitBlock _ hne | waitAgain _ hne => exact fun _ => Or.inl hne
  | push => exact fun _ => Or.inl (by simp)
  | endQuiet h hc => exact fun _ => hreach.awaited_of_endQuiet h hc
  | endNotify h _ =>
    -- everybody has been woken, so that no caller is blocked
    rintro ⟨p, hp, hw⟩
    rcases List.mem_or_eq_of_mem_set hp with hp | rfl
    · rw [not_waiting_notifyAll hp] at hw
      cases hw
    · cases hw
  | stopSet h =>
    rintro ⟨p, hp, hw⟩
    rcases List.mem_or_eq_of_mem_set hp with hp | rfl
    · rw [not_waiting_notifyAll hp] at hw
      cases hw
    · cases hw
  | startSpawn h _ =>
    rintro ⟨p, hp, hw⟩
    have hp' : p ∈ s.threads.set i .idle := by
      rcases List.mem_append.1 hp with hp | hp
      · exact hp
      · rw [(List.mem_replicate.1 hp).2] at hw
        cases hw
    rcases hs (exists_mem_of_set h (fun hf => by cases hf) ⟨p, hp', hw⟩) with hne | hr
    · exact Or.inl hne
    · obtain ⟨q, hq, hqr⟩ := exists_mem_set (b := .idle) h (fun hf => by cases hf) hr
      exact Or.inr ⟨q, List.mem_append_left _ hq, hqr⟩
  | timeout h | lateTimeout h | loopExit h | loopEnter h | getBlock h | getFalse h | inc h
  | expire h | begin h | finish _ h | dec h | initialRefuse h | initialSet h | startRefuse h
  | waitNone h | waitTrue h | waitFalse h | waitDone h | stopBegin h | stopIsJoinable h
  | stopNotJoinable h | stopJoined h | stopDeleted h | stopLoopEnd h | stopCleared h =>
    exact hs.of_move h rfl (by intro hf; first | rfl | cases hf)
      (by intro hf; first | rfl | cases hf) rfl

lemma Reach.awaited {s : State} (h : Reach s) : Awaited s := by
  refine Reachable.invariant ?_ ?_ h
  · rintro s ⟨n, rfl⟩ ⟨p, hp, hw⟩
    rw [(List.mem_replicate.1 hp).2] at hw
    cases hw
  · rintro s t hreach hs ⟨i, hst⟩
    exact hst.awaited hreach hs

/-! ## Somebody to take a task -/

/-- While the queue of a running pool is not empty, some worker is awake. -/
def Served (s : State) : Prop :=
  s.terminate = false → s.workers ≠ [] → s.tasks ≠ [] → ∃ p ∈ s.threads, p.awake = true

lemma awake_of_woken {p q : Pc} (h : p.woken = some q) : p.awake = true → q.awake = true := by
  cases p <;> cases h <;> intro hf <;> cases hf

lemma Served.of_move {s t : State} (hs : Served s) {i : ℕ} {p q : Pc}
    (h : s.threads[i]? = some p) (hthreads : t.threads = s.threads.set i q)
    (hawake : p.awake = true → q.awake = true) (hterm : t.terminate = s.terminate)
    (hworkers : t.workers = s.workers) (htasks : t.tasks = s.tasks) : Served t := by
  rw [Served, hthreads, hterm, hworkers, htasks]
  exact fun h1 h2 h3 => exists_mem_set h hawake (hs h1 h2 h3)

/-- Somebody is awake after `exec`, whoever was notified. -/
lemma Reach.exists_awake_of_notifyOne {s : State} (hs : Reach s) (hserved : Served s)
    (hterm : s.terminate = false) (hworkers : s.workers ≠ []) {ts : List Pc}
    (hn : NotifyOne Pc.woken s.threads ts) : ∃ p ∈ ts, p.awake = true := by
  rcases hn with ⟨j, a, b, ha, hb, rfl⟩ | ⟨hnone, rfl⟩
  · cases a with
    | getBlocked =>
      -- a worker was notified
      cases hb
      exact ⟨.getWoken, List.mem_of_getElem? (getElem?_set_self_of_getElem? ha _), rfl⟩
    | waitBlocked timed before =>
      -- a caller was notified, and it was not without something to wait for
      have hex : ∃ p ∈ s.threads, p.awake = true := by
        rcases hs.awaited ⟨_, List.mem_of_getElem? ha, rfl⟩ with htasks | ⟨p, hp, hr⟩
        · exact hserved hterm hworkers htasks
        · exact ⟨p, hp, awake_of_inRound hr⟩
      exact exists_mem_set ha (awake_of_woken hb) hex
    | _ => cases hb
  · -- nobody was blocked, in particular no worker
    have hlive := hs.live hterm
    obtain ⟨w, hw⟩ := List.exists_mem_of_ne_nil _ hworkers
    obtain ⟨p, hp, hworker⟩ := List.mem_map.1 (List.mem_of_getElem? ((hlive.workers w).1 hw))
    have hnot := hnone p hp
    have hstop := hlive.no_stop p hp
    refine ⟨p, hp, ?_⟩
    cases p with
    | getBlocked => cases hnot
    | exited => cases hstop
    | _ => exact hworker

lemma Step.served {i : ℕ} {s t : State} (hreach : Reach s) (hst : Step i s t)
    (hs : Served s) : Served t := by
  cases hst with
  | lock h hq =>
    rename_i p q _
    exact hs.of_move h rfl (by cases p <;> cases hq <;> exact fun h => h) rfl rfl rfl
  | wake h hq => exact hs.of_move h rfl (awake_of_woken hq) rfl rfl rfl
  | call c h => exact hs.of_move h rfl (by intro hf; cases hf) rfl rfl rfl
  | push h hn =>
    intro hterm hworkers _
    exact exists_mem_set (hn.getElem?_of_not_blocked h rfl) (fun hf => by cases hf)
      (hreach.exists_awake_of_notifyOne hs hterm hworkers hn)
  | getBlock _ hg => exact fun _ _ htasks => absurd (State.get_eq_block hg).2 htasks
  | getTrue h _ =>
    exact fun _ _ _ => ⟨_, List.mem_of_getElem? (getElem?_set_self_of_getElem? h _), rfl⟩
  | endNotify h _ =>
    exact fun _ _ _ => ⟨.loopTest, List.mem_of_getElem?
      (getElem?_set_self_of_getElem? (getElem?_notifyAll h) _), rfl⟩
  | startSpawn _ _ =>
    intro _ hworkers _
    have hpos : s.poolSize ≠ 0 := by
      intro h0
      exact hworkers (by simp [State.newWorkers, h0])
    exact ⟨.loopTest, List.mem_append_right _ (List.mem_replicate.2 ⟨hpos, rfl⟩), rfl⟩
  | loopExit _ ht =>
    intro hterm
    have hf : s.terminate = false := hterm
    rw [hf] at ht
    cases ht
  | stopSet =>
    intro hterm
    cases hterm
  | stopCleared => exact fun _ hworkers => absurd rfl hworkers
  | timeout h | lateTimeout h | loopEnter h | getFalse h | inc h | expire h | begin h
  | finish _ h | dec h | endQuiet h | initialRefuse h | initialSet h | startRefuse h | waitNone h
  | waitBlock h | waitTrue h | waitFalse h | waitAgain h | waitDone h | stopBegin h
  | stopIsJoinable h | stopNotJoinable h | stopJoined h | stopDeleted h | stopLoopEnd h =>
    exact hs.of_move h rfl (by intro hf; first | rfl | cases hf) rfl rfl rfl

lemma Reach.served {s : State} (h : Reach s) : Served s := by
  refine Reachable.invariant ?_ ?_ h
  · rintro s ⟨n, rfl⟩ - hworkers
    exact absurd rfl hworkers
  · rintro s t hreach hs ⟨i, hst⟩
    exact hst.served hreach hs

/-! ## No lost wake-up -/

/-- A worker is a member of `_workers`. -/
lemma Live.mem_workers {s : State} (h : Live s) {i : ℕ} {p : Pc} (hp : s.threads[i]? = some p)
    (hworker : p.isWorker = true) : i ∈ s.workers := by
  rw [h.workers, List.getElem?_map, hp, Option.map_some, hworker]

/-- **No lost wake-up.**  In a pool that was started with at least one worker and is not
stopped, a task in the queue has a worker that is not blocked, and a caller that is blocked
in `wait_for_all_done` has a task in the queue or a worker in a round to wait for. -/
theorem no_lost_wakeup {s : State} (h : Reach s) (hworkers : s.workers ≠ [])
    (hterm : s.terminate = false) :
    (s.tasks ≠ [] → ∃ w ∈ s.workers, ∃ p, s.threads[w]? = some p ∧ p.isWorker = true ∧
        p ≠ .getBlocked ∧ p ≠ .exited) ∧
      ((∃ (c : ℕ) (timed : Bool) (before : List TaskFunc),
          s.threads[c]? = some (.waitBlocked timed before)) →
        s.tasks ≠ [] ∨ ∃ w ∈ s.workers, ∃ p, s.threads[w]? = some p ∧ p.inRound = true) := by
  have hlive := h.live hterm
  constructor
  · intro htasks
    obtain ⟨p, hp, hawake⟩ := h.served hterm hworkers htasks
    obtain ⟨w, hw⟩ := List.getElem?_of_mem hp
    have hworker := isWorker_of_awake hawake
    refine ⟨w, hlive.mem_workers hw hworker, p, hw, hworker, ?_, ?_⟩
    · rintro rfl
      cases hawake
    · rintro rfl
      cases hawake
  · rintro ⟨c, timed, before, hc⟩
    rcases h.awaited ⟨_, List.mem_of_getElem? hc, rfl⟩ with htasks | ⟨p, hp, hround⟩
    · exact Or.inl htasks
    · obtain ⟨w, hw⟩ := List.getElem?_of_mem hp
      have hworker := isWorker_of_awake (awake_of_inRound hround)
      exact Or.inr ⟨w, hlive.mem_workers hw hworker, p, hw, hround⟩

/-- A pool with one worker that has not yet begun, a task in the queue, and a caller that
is blocked. -/
def blockedCaller : State :=
  { State.fresh 2 with
    tasks := [⟨0, 0⟩]
    workers := [2]
    threads := [.idle, .waitBlocked false [⟨0, 0⟩], .loopTest]
    pushed := [⟨0, 0⟩] }

lemma blockedCaller_reach : Reach blockedCaller := by
  have h₀ : Reach (State.fresh 2) := .of_init ⟨2, rfl⟩
  have h₁ := ((h₀.tail ⟨0, .call .start rfl⟩).tail ⟨0, .lock rfl rfl rfl⟩).tail
    ⟨0, .startSpawn rfl rfl⟩
  have h₂ := ((h₁.tail ⟨0, .call (.exec 0) rfl⟩).tail ⟨0, .lock rfl rfl rfl⟩).tail
    ⟨0, .push rfl (Or.inr ⟨by decide, rfl⟩)⟩
  exact ((h₂.tail ⟨1, .call (.waitForAllDone false) rfl⟩).tail ⟨1, .lock rfl rfl rfl⟩).tail
    ⟨1, .waitBlock rfl (List.cons_ne_nil _ _)⟩

theorem no_lost_wakeup_blockedCaller :
    (∃ (c : ℕ) (timed : Bool) (before : List TaskFunc),
        blockedCaller.threads[c]? = some (.waitBlocked timed before)) ∧
      ∃ w ∈ blockedCaller.workers, ∃ p, blockedCaller.threads[w]? = some p ∧
        p.isWorker = true ∧ p ≠ .getBlocked ∧ p ≠ .exited :=
  ⟨⟨1, false, _, rfl⟩, (no_lost_wakeup blockedCaller_reach (List.cons_ne_nil _ _) rfl).1
    (List.cons_ne_nil _ _)⟩

end CppExample.ThreadPool
