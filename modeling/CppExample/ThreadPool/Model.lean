/-
# The thread pool as a transition system

`demo_threadpool` of `thread_pool/demo_threadpool.h` and `.cpp`, with its threads: the
workers, which run `run`, and any number of client threads that call `initial`, `start`,
`stop`, `exec` and `wait_for_all_done` in any order.

A thread is at a program point.  Acquiring `_pool_mutex` is a step of its own, possible
when the mutex is free.  What a thread does while it holds the mutex is one step, which
ends with the release of the mutex or with the wait that releases it: no other thread reads
or writes the guarded members in between.  Everything outside the mutex is a step for each
access of a shared member: the unlocked test of `_terminate`, `++running_count`, the expiry
test, the run of the body, `--running_count`, and the operations of `stop` on the
`std::thread` objects.

`_pool_cond` wakes threads by `notify_one`, `notify_all`, spuriously, and by time-out in
`wait_for`.  A woken thread has to acquire the mutex again before it goes on.

The body of a task ends, and it does not call the pool: a worker has no step for that.  The
operations of `stop` on a `std::thread` object that was deleted before, or that is joined a second
time, are steps like others, which `touchedDeleted` and `joined` record; what a run does after such
a step says nothing about the program.

The last fields of the state are history: which tasks were pushed, taken, started and
settled so far, in order, and which `std::thread` objects were joined and deleted.
-/
import CppExample.Lib.Run
import CppExample.Lib.Threads

namespace CppExample.ThreadPool
open Lib

/-- `task_func`.  The number stands for the object that the shared pointer points to; tasks
are numbered in the order in which `exec` pushes them. -/
structure TaskFunc where
  id : ℕ
  expireTime : ℤ
deriving DecidableEq, Repr

/-- The expiry test of `run`, at the clock reading `now`. -/
def TaskFunc.expired (t : TaskFunc) (now : ℤ) : Bool := t.expireTime ≠ 0 ∧ t.expireTime < now

/-- How a task that was taken out of the queue ended. -/
inductive Fate where
  /-- Its time was over, and it was not run. -/
  | expired
  /-- It was run to its end, which was an exception or not. -/
  | ran (threw : Bool)
deriving DecidableEq, Repr

/-- The program points of a thread. -/
inductive Pc where
  /-- `run`: the test of `is_terminate ()`. -/
  | loopTest
  /-- `get`: before the lock. -/
  | getLock
  /-- `get`, with the mutex; `resumed` when it comes back out of the wait. -/
  | getBody (resumed : Bool)
  /-- `get`: blocked on `_pool_cond`. -/
  | getBlocked
  /-- `get`: woken, and waiting for the mutex. -/
  | getWoken
  /-- `run`: before `++running_count`. -/
  | incRunning (t : TaskFunc)
  /-- `run`: before the expiry test. -/
  | expiryTest (t : TaskFunc)
  /-- `run`: inside `task->_func ()`. -/
  | body (t : TaskFunc)
  /-- `run`: before `--running_count`. -/
  | decRunning
  /-- `run`: before the lock at the end of a round. -/
  | endLock
  /-- `run`: the check at the end of a round, with the mutex. -/
  | endBody
  /-- The worker has left `run`. -/
  | exited
  /-- A client outside the pool. -/
  | idle
  /-- `initial`: before the lock. -/
  | initialLock (num : ℕ)
  /-- `initial`, with the mutex. -/
  | initialBody (num : ℕ)
  /-- `start`: before the lock. -/
  | startLock
  /-- `start`, with the mutex. -/
  | startBody
  /-- `exec`: before the lock, with the expiry time computed. -/
  | execLock (expireTime : ℤ)
  /-- `exec`, with the mutex. -/
  | execBody (expireTime : ℤ)
  /-- `wait_for_all_done`: before the lock.  `timed` tells `wait_for` from `wait`; `before`
  are the tasks that were pushed when the call began. -/
  | waitLock (timed : Bool) (before : List TaskFunc)
  /-- `wait_for_all_done`, with the mutex, at the first test. -/
  | waitBody (timed : Bool) (before : List TaskFunc)
  /-- `wait_for_all_done`: blocked on `_pool_cond`. -/
  | waitBlocked (timed : Bool) (before : List TaskFunc)
  /-- `wait_for_all_done`: woken, and waiting for the mutex. -/
  | waitWoken (timed timedOut : Bool) (before : List TaskFunc)
  /-- `wait_for_all_done`, with the mutex, at the predicate of the wait. -/
  | waitPred (timed timedOut : Bool) (before : List TaskFunc)
  /-- `wait_for_all_done` has returned `result`. -/
  | waitRet (result : Bool) (before : List TaskFunc)
  /-- `stop`: before the first lock. -/
  | stopLock
  /-- `stop`, with the mutex, in the first block. -/
  | stopBody
  /-- `stop`: at the head of the loop over `_workers`. -/
  | stopScan
  /-- `stop`: in the loop, at `joinable ()` of the next worker. -/
  | stopJoinable (rest : List ℕ)
  /-- `stop`: in `join ()`. -/
  | stopJoin (w : ℕ) (rest : List ℕ)
  /-- `stop`: before `delete t`. -/
  | stopDelete (w : ℕ) (rest : List ℕ)
  /-- `stop`: before the second lock. -/
  | stopLock2
  /-- `stop`, with the mutex, before `_workers.clear ()`. -/
  | stopClear
deriving DecidableEq, Repr

namespace Pc

/-- Where a thread that waits for the mutex goes on once it has it. -/
def afterLock : Pc → Option Pc
  | getLock => some (getBody false)
  | getWoken => some (getBody true)
  | endLock => some endBody
  | initialLock num => some (initialBody num)
  | startLock => some startBody
  | execLock e => some (execBody e)
  | waitLock timed before => some (waitBody timed before)
  | waitWoken timed timedOut before => some (waitPred timed timedOut before)
  | stopLock => some stopBody
  | stopLock2 => some stopClear
  | _ => none

/-- Where a thread that is blocked on `_pool_cond` goes when it is notified or wakes
spuriously. -/
def woken : Pc → Option Pc
  | getBlocked => some getWoken
  | waitBlocked timed before => some (waitWoken timed false before)
  | _ => none

/-- The points of `run` and `get`. -/
def isWorker : Pc → Bool
  | loopTest | getLock | getBody _ | getBlocked | getWoken | incRunning _ | expiryTest _
  | body _ | decRunning | endLock | endBody | exited => true
  | _ => false

/-- The task that a worker has taken and not yet settled. -/
def held : Pc → Option TaskFunc
  | incRunning t | expiryTest t | body t => some t
  | _ => none

end Pc

/-- A call that a client can make; `exec` with the expiry time it computes from its
argument and the clock. -/
inductive Call where
  | initial (num : ℕ)
  | start
  | stop
  | exec (expireTime : ℤ)
  | waitForAllDone (timed : Bool)
deriving DecidableEq, Repr

/-- The members of the pool, its threads, and the history. -/
structure State where
  /-- `_tasks`. -/
  tasks : List TaskFunc
  /-- `_workers`: the threads that the pointers in the vector stand for. -/
  workers : List ℕ
  /-- `_pool_size`. -/
  poolSize : ℕ
  /-- `_terminate`. -/
  terminate : Bool
  /-- `running_count`. -/
  runningCount : ℤ
  /-- The thread that holds `_pool_mutex`. -/
  mutex : Option ℕ
  /-- The program point of every thread. -/
  threads : List Pc
  /-- The tasks pushed so far. -/
  pushed : List TaskFunc
  /-- The tasks taken out of the queue so far. -/
  taken : List TaskFunc
  /-- The tasks whose body was started so far. -/
  started : List TaskFunc
  /-- The tasks that ended so far. -/
  settled : List (TaskFunc × Fate)
  /-- The `std::thread` objects joined so far. -/
  joined : List ℕ
  /-- The `std::thread` objects deleted so far. -/
  deleted : List ℕ
  /-- Some operation touched a `std::thread` object that was already deleted. -/
  touchedDeleted : Bool
deriving DecidableEq, Repr

/-- The pool as its constructor leaves it, with `n` client threads. -/
def State.fresh (n : ℕ) : State where
  tasks := []
  workers := []
  poolSize := 1
  terminate := false
  runningCount := 0
  mutex := none
  threads := List.replicate n .idle
  pushed := []
  taken := []
  started := []
  settled := []
  joined := []
  deleted := []
  touchedDeleted := false

/-- What `get` does with the mutex. -/
inductive GetResult where
  /-- The predicate of the wait is false. -/
  | block
  /-- It returns, with a task or without. -/
  | ret (task : Option TaskFunc)
deriving DecidableEq, Repr

namespace State

/-- The predicate on which `get` waits. -/
def getPred (s : State) : Bool := s.terminate || !s.tasks.isEmpty

/-- `get`, with the mutex.  It evaluates the predicate when it finds the queue empty and
after every wake-up. -/
def get (s : State) (resumed : Bool) : GetResult :=
  if (resumed || s.tasks.isEmpty) && !s.getPred then .block
  else if s.terminate then .ret none
  else .ret s.tasks.head?

/-- `get` blocks when the queue is empty and the pool is not terminated. -/
lemma get_eq_block {s : State} {r : Bool} (h : s.get r = .block) :
    s.terminate = false ∧ s.tasks = [] := by
  rw [get] at h
  split at h
  · next hb => simpa [getPred] using (Bool.and_eq_true_iff.1 hb).2
  · split at h <;> cases h

/-- `get` returns a task only when the pool is not terminated, and it is the front one. -/
lemma get_eq_some {s : State} {r : Bool} {t : TaskFunc} (h : s.get r = .ret (some t)) :
    s.terminate = false ∧ s.tasks = t :: s.tasks.tail := by
  rw [get] at h
  split at h
  · cases h
  · split at h
    · cases h
    · next ht =>
      rw [GetResult.ret.injEq] at h
      exact ⟨by simpa using ht, (List.cons_head?_tail (by simpa using h)).symm⟩

/-- `get` returns without a task only when the pool is terminated. -/
lemma get_eq_none {s : State} {r : Bool} (h : s.get r = .ret none) : s.terminate = true := by
  rw [get] at h
  split at h
  · cases h
  · next hb =>
    split at h
    · next ht => exact ht
    · next ht =>
      rw [GetResult.ret.injEq, List.head?_eq_none_iff] at h
      exact absurd hb (by simp [getPred, h, ht])

/-- Move thread `i` to another point. -/
def goto (s : State) (i : ℕ) (p : Pc) : State := { s with threads := s.threads.set i p }

/-- Release the mutex and move thread `i` to another point. -/
def leave (s : State) (i : ℕ) (p : Pc) : State :=
  { s with mutex := none, threads := s.threads.set i p }

/-- The point at which a call begins. -/
def enter (s : State) : Call → Pc
  | .initial num => .initialLock num
  | .start => .startLock
  | .stop => .stopLock
  | .exec e => .execLock e
  | .waitForAllDone timed => .waitLock timed s.pushed

/-- The threads that `start` creates. -/
def newWorkers (s : State) : List ℕ := (List.range s.poolSize).map (s.threads.length + ·)

end State

/-- A step of thread `i`. -/
inductive Step (i : ℕ) (s : State) : State → Prop
  /-- Acquire the mutex. -/
  | lock {p q : Pc} (h : s.threads[i]? = some p) (hq : p.afterLock = some q)
      (hm : s.mutex = none) : Step i s { s.goto i q with mutex := some i }
  /-- A spurious wake-up. -/
  | wake {p q : Pc} (h : s.threads[i]? = some p) (hq : p.woken = some q) : Step i s (s.goto i q)
  /-- The time of `wait_for` is over. -/
  | timeout {before : List TaskFunc} (h : s.threads[i]? = some (.waitBlocked true before)) :
      Step i s (s.goto i (.waitWoken true true before))
  /-- The time of `wait_for` is over before a woken thread has the mutex back. -/
  | lateTimeout {before : List TaskFunc}
      (h : s.threads[i]? = some (.waitWoken true false before)) :
      Step i s (s.goto i (.waitWoken true true before))
  /-- `run`: the loop test fails. -/
  | loopExit (h : s.threads[i]? = some .loopTest) (ht : s.terminate = true) :
      Step i s (s.goto i .exited)
  /-- `run`: the loop test succeeds. -/
  | loopEnter (h : s.threads[i]? = some .loopTest) (ht : s.terminate = false) :
      Step i s (s.goto i .getLock)
  /-- `get`: block on `_pool_cond`. -/
  | getBlock {r : Bool} (h : s.threads[i]? = some (.getBody r)) (hg : s.get r = .block) :
      Step i s (s.leave i .getBlocked)
  /-- `get` returns false. -/
  | getFalse {r : Bool} (h : s.threads[i]? = some (.getBody r)) (hg : s.get r = .ret none) :
      Step i s (s.leave i .loopTest)
  /-- `get` returns true, with the task at the front of the queue. -/
  | getTrue {r : Bool} {t : TaskFunc} (h : s.threads[i]? = some (.getBody r))
      (hg : s.get r = .ret (some t)) :
      Step i s { s.leave i (.incRunning t) with
        tasks := s.tasks.tail, taken := s.taken ++ [t] }
  /-- `++running_count`. -/
  | inc {t : TaskFunc} (h : s.threads[i]? = some (.incRunning t)) :
      Step i s { s.goto i (.expiryTest t) with runningCount := s.runningCount + 1 }
  /-- The task has expired. -/
  | expire {t : TaskFunc} {now : ℤ} (h : s.threads[i]? = some (.expiryTest t))
      (hnow : t.expired now = true) :
      Step i s { s.goto i .decRunning with settled := s.settled ++ [(t, .expired)] }
  /-- The task has not expired: call its body. -/
  | begin {t : TaskFunc} {now : ℤ} (h : s.threads[i]? = some (.expiryTest t))
      (hnow : t.expired now = false) :
      Step i s { s.goto i (.body t) with started := s.started ++ [t] }
  /-- The body ends, by an exception or not. -/
  | finish {t : TaskFunc} (threw : Bool) (h : s.threads[i]? = some (.body t)) :
      Step i s { s.goto i .decRunning with settled := s.settled ++ [(t, .ran threw)] }
  /-- `--running_count`. -/
  | dec (h : s.threads[i]? = some .decRunning) :
      Step i s { s.goto i .endLock with runningCount := s.runningCount - 1 }
  /-- The check at the end of a round succeeds: wake everybody. -/
  | endNotify (h : s.threads[i]? = some .endBody) (hc : s.runningCount = 0 ∧ s.tasks = []) :
      Step i s { s with
        mutex := none, threads := (notifyAll Pc.woken s.threads).set i .loopTest }
  /-- The check at the end of a round fails. -/
  | endQuiet (h : s.threads[i]? = some .endBody) (hc : ¬ (s.runningCount = 0 ∧ s.tasks = [])) :
      Step i s (s.leave i .loopTest)
  /-- A client makes a call. -/
  | call (c : Call) (h : s.threads[i]? = some .idle) : Step i s (s.goto i (s.enter c))
  /-- `initial`: there are workers already. -/
  | initialRefuse {num : ℕ} (h : s.threads[i]? = some (.initialBody num))
      (hw : s.workers ≠ []) : Step i s (s.leave i .idle)
  /-- `initial` sets the size. -/
  | initialSet {num : ℕ} (h : s.threads[i]? = some (.initialBody num)) (hw : s.workers = []) :
      Step i s { s.leave i .idle with poolSize := num }
  /-- `start`: there are workers already. -/
  | startRefuse (h : s.threads[i]? = some .startBody) (hw : s.workers ≠ []) :
      Step i s (s.leave i .idle)
  /-- `start` creates the workers. -/
  | startSpawn (h : s.threads[i]? = some .startBody) (hw : s.workers = []) :
      Step i s { s with
        mutex := none, workers := s.newWorkers
        threads := s.threads.set i .idle ++ List.replicate s.poolSize .loopTest }
  /-- `exec` pushes a task and notifies one thread. -/
  | push {e : ℤ} {ts : List Pc} (h : s.threads[i]? = some (.execBody e))
      (hn : NotifyOne Pc.woken s.threads ts) :
      Step i s { s with
        mutex := none, threads := ts.set i .idle
        tasks := s.tasks ++ [⟨s.pushed.length, e⟩]
        pushed := s.pushed ++ [⟨s.pushed.length, e⟩] }
  /-- `wait_for_all_done`: the first test finds the queue empty. -/
  | waitNone {timed : Bool} {before : List TaskFunc}
      (h : s.threads[i]? = some (.waitBody timed before)) (ht : s.tasks = []) :
      Step i s (s.leave i (.waitRet true before))
  /-- `wait_for_all_done`: block on `_pool_cond`. -/
  | waitBlock {timed : Bool} {before : List TaskFunc}
      (h : s.threads[i]? = some (.waitBody timed before)) (ht : s.tasks ≠ []) :
      Step i s (s.leave i (.waitBlocked timed before))
  /-- `wait_for_all_done`: the predicate is true after a wake-up. -/
  | waitTrue {timed timedOut : Bool} {before : List TaskFunc}
      (h : s.threads[i]? = some (.waitPred timed timedOut before)) (ht : s.tasks = []) :
      Step i s (s.leave i (.waitRet true before))
  /-- `wait_for_all_done`: the predicate is false and the time is over. -/
  | waitFalse {timed : Bool} {before : List TaskFunc}
      (h : s.threads[i]? = some (.waitPred timed true before)) (ht : s.tasks ≠ []) :
      Step i s (s.leave i (.waitRet false before))
  /-- `wait_for_all_done`: the predicate is false, block again. -/
  | waitAgain {timed : Bool} {before : List TaskFunc}
      (h : s.threads[i]? = some (.waitPred timed false before)) (ht : s.tasks ≠ []) :
      Step i s (s.leave i (.waitBlocked timed before))
  /-- The caller of `wait_for_all_done` goes on. -/
  | waitDone {result : Bool} {before : List TaskFunc}
      (h : s.threads[i]? = some (.waitRet result before)) : Step i s (s.goto i .idle)
  /-- `stop` sets `_terminate` and wakes everybody. -/
  | stopSet (h : s.threads[i]? = some .stopBody) :
      Step i s { s with
        mutex := none, terminate := true
        threads := (notifyAll Pc.woken s.threads).set i .stopScan }
  /-- `stop` begins its loop over the vector. -/
  | stopBegin (h : s.threads[i]? = some .stopScan) :
      Step i s (s.goto i (.stopJoinable s.workers))
  /-- `stop`: the next thread is joinable. -/
  | stopIsJoinable {w : ℕ} {rest : List ℕ}
      (h : s.threads[i]? = some (.stopJoinable (w :: rest))) (hw : w ∉ s.joined) :
      Step i s { s.goto i (.stopJoin w rest) with
        touchedDeleted := s.touchedDeleted || decide (w ∈ s.deleted) }
  /-- `stop`: the next thread is not joinable. -/
  | stopNotJoinable {w : ℕ} {rest : List ℕ}
      (h : s.threads[i]? = some (.stopJoinable (w :: rest))) (hw : w ∈ s.joined) :
      Step i s { s.goto i (.stopDelete w rest) with
        touchedDeleted := s.touchedDeleted || decide (w ∈ s.deleted) }
  /-- `stop`: `join` returns once the worker has left `run`. -/
  | stopJoined {w : ℕ} {rest : List ℕ} (h : s.threads[i]? = some (.stopJoin w rest))
      (hw : s.threads[w]? = some .exited) :
      Step i s { s.goto i (.stopDelete w rest) with
        joined := s.joined ++ [w]
        touchedDeleted := s.touchedDeleted || decide (w ∈ s.deleted) }
  /-- `stop`: `delete t`. -/
  | stopDeleted {w : ℕ} {rest : List ℕ} (h : s.threads[i]? = some (.stopDelete w rest)) :
      Step i s { s.goto i (.stopJoinable rest) with
        deleted := s.deleted ++ [w]
        touchedDeleted := s.touchedDeleted || decide (w ∈ s.deleted) }
  /-- `stop`: the loop is over. -/
  | stopLoopEnd (h : s.threads[i]? = some (.stopJoinable [])) : Step i s (s.goto i .stopLock2)
  /-- `stop` clears the vector and returns. -/
  | stopCleared (h : s.threads[i]? = some .stopClear) :
      Step i s { s.leave i .idle with workers := [] }

/-- What a step does to a thread that does not make it, or that did not exist before. -/
inductive Other (before after : Option Pc) : Prop
  | same (h : after = before)
  | woken {p q : Pc} (hp : before = some p) (hw : p.woken = some q) (hq : after = some q)
  | spawned (hp : before = none) (hq : after = some .loopTest)

lemma Step.other {i j : ℕ} {s t : State} (hst : Step i s t) (hij : i ≠ j) :
    Other s.threads[j]? t.threads[j]? := by
  have hset : ∀ (ts : List Pc) (q : Pc), (ts.set i q)[j]? = ts[j]? := fun ts q =>
    List.getElem?_set_ne hij
  have hall : ∀ q : Pc, Other s.threads[j]? ((notifyAll Pc.woken s.threads).set i q)[j]? := by
    intro q
    rw [hset]
    cases hj : s.threads[j]? with
    | none => exact .same (by simpa [notifyAll] using hj)
    | some p =>
      rw [getElem?_notifyAll hj]
      cases hw : p.woken with
      | none => exact .same rfl
      | some q' => exact .woken rfl hw rfl
  cases hst with
  | endNotify _ _ => exact hall _
  | stopSet _ => exact hall _
  | startSpawn _ _ =>
    by_cases hlt : j < s.threads.length
    · exact .same ((List.getElem?_append_left (by rwa [List.length_set])).trans (hset _ _))
    · have hnone : s.threads[j]? = none := List.getElem?_eq_none (by omega)
      cases hj : (s.threads.set i Pc.idle ++ List.replicate s.poolSize Pc.loopTest)[j]? with
      | none => exact .same hnone.symm
      | some q =>
        rw [List.getElem?_append_right (by rw [List.length_set]; omega)] at hj
        obtain ⟨-, rfl⟩ := List.mem_replicate.1 (List.mem_of_getElem? hj)
        exact .spawned hnone rfl
  | push _ hn =>
    rcases hn with ⟨k, a, b, ha, hb, rfl⟩ | ⟨-, rfl⟩
    · by_cases hk : k = j
      · subst hk
        exact .woken ha hb (by rw [hset]; exact getElem?_set_self_of_getElem? ha b)
      · exact .same (by rw [hset, List.getElem?_set_ne hk])
    · exact .same (hset _ _)
  | lock | wake | timeout | lateTimeout | loopExit | loopEnter | getBlock | getFalse | getTrue
  | inc | expire | begin | finish | dec | endQuiet | call | initialRefuse | initialSet
  | startRefuse | waitNone | waitBlock | waitTrue | waitFalse | waitAgain | waitDone | stopBegin
  | stopIsJoinable | stopNotJoinable | stopJoined | stopDeleted | stopLoopEnd | stopCleared =>
    exact .same (hset _ _)

/-- A step of another thread moves a thread only by waking it. -/
lemma Step.of_other {i j : ℕ} {s t : State} (hst : Step i s t) (hij : i ≠ j) {p : Pc}
    (h : s.threads[j]? = some p) :
    t.threads[j]? = some p ∨ ∃ q, p.woken = some q ∧ t.threads[j]? = some q := by
  cases hst.other hij with
  | same h' => exact Or.inl (h'.trans h)
  | woken hp hw hq =>
    obtain rfl := Option.some.inj (h.symm.trans hp)
    exact Or.inr ⟨_, hw, hq⟩
  | spawned hp hq =>
    rw [h] at hp
    cases hp

/-- What waking keeps, and a new worker has, is kept by the steps of the other threads. -/
lemma Step.forall_other {P : Pc → Prop} {i j : ℕ} {s t : State} (hst : Step i s t) (hij : i ≠ j)
    (hwoken : ∀ p q : Pc, p.woken = some q → P p → P q)
    (hspawned : s.threads[j]? = none → P .loopTest)
    (hs : ∀ p, s.threads[j]? = some p → P p) {q : Pc} (hq : t.threads[j]? = some q) : P q := by
  cases hst.other hij with
  | same h => exact hs q (h.symm.trans hq)
  | woken hp hw hq' =>
    obtain rfl := Option.some.inj (hq'.symm.trans hq)
    exact hwoken _ _ hw (hs _ hp)
  | spawned hp hq' =>
    obtain rfl := Option.some.inj (hq'.symm.trans hq)
    exact hspawned hp

/-- What waking keeps, a new worker has, and the thread that makes the step has afterwards, is
kept for all threads. -/
lemma Step.forall_threads {P : Pc → Prop} {i : ℕ} {s t : State} (hst : Step i s t)
    (hwoken : ∀ p q : Pc, p.woken = some q → P p → P q) (hspawned : P .loopTest)
    (hself : ∀ q, t.threads[i]? = some q → P q) (hs : ∀ p ∈ s.threads, P p) :
    ∀ p ∈ t.threads, P p := by
  intro p hp
  obtain ⟨j, hj⟩ := List.getElem?_of_mem hp
  by_cases hij : i = j
  · subst hij
    exact hself p hj
  · exact hst.forall_other hij hwoken (fun _ => hspawned)
      (fun q hq => hs q (List.mem_of_getElem? hq)) hj

/-- The thread that creates the workers stays where `start` leaves it. -/
lemma eq_idle_of_spawn {s : State} {i : ℕ} {q : Pc} (h : s.threads[i]? = some .startBody)
    (hq : (s.threads.set i .idle ++ List.replicate s.poolSize .loopTest)[i]? = some q) :
    .idle = q := by
  have hlt := (List.getElem?_eq_some_iff.1 h).1
  rw [List.getElem?_append_left (by rwa [List.length_set])] at hq
  exact eq_of_getElem?_set hq

/-- A step of some thread. -/
def Next (s t : State) : Prop := ∃ i, Step i s t

/-- A pool that was just constructed, with any number of clients. -/
def Init (s : State) : Prop := ∃ n, s = State.fresh n

/-- The states of the pool in all interleavings of its workers and clients. -/
def Reach (s : State) : Prop := Reachable Init Next s

end CppExample.ThreadPool
