/-
# The two blocking queues as a transition system

`SyncQueue` of `condition_variable/sync_queue_by_lock_guard.h`, with its bound and its two
condition variables, and `SimpleSyncQueue` of `sync_queue_by_unique_lock.h`, with one.  Any
number of threads call `Put` and `Take` in any order.

Each statement is a step: acquiring the mutex, the test of the loop, `push_back`, `front`,
`pop_front`, `notify_one` and the release.  A wait releases the mutex and blocks in one
step; a blocked thread is woken by a notification of its condition variable or spuriously,
and has to acquire the mutex again before it tests again.  `SimpleSyncQueue::Take` waits
with a predicate, which is the same loop.
-/
import CppExample.Lib.Monitor
import CppExample.Lib.Run

namespace CppExample.SyncQueue
open Lib

/-- Which of the two classes; `SyncQueue` with the argument of its constructor. -/
inductive Class where
  | syncQueue (maxSize : ℤ)
  | simpleSyncQueue
deriving DecidableEq, Repr

/-- The program points of a thread. -/
inductive Pc (α : Type*) where
  /-- Outside the queue. -/
  | idle
  /-- `Put`: before the lock. -/
  | putLock (x : α)
  /-- `Put`: the test of `IsFull ()`. -/
  | putTest (x : α)
  /-- `Put`: blocked on `_notFull`. -/
  | putBlocked (x : α)
  /-- `Put`: woken, and waiting for the mutex. -/
  | putWoken (x : α)
  /-- `Put`: before `push_back`. -/
  | putPush (x : α)
  /-- `Put`: before `_notEmpty.notify_one ()`. -/
  | putNotify (x : α)
  /-- `Put`: before the release of the mutex. -/
  | putUnlock (x : α)
  /-- `Take`: before the lock. -/
  | takeLock
  /-- `Take`: the test of `IsEmpty ()`. -/
  | takeTest
  /-- `Take`: blocked on `_notEmpty`. -/
  | takeBlocked
  /-- `Take`: woken, and waiting for the mutex. -/
  | takeWoken
  /-- `Take`: before `x = _queue.front ()`. -/
  | takeFront
  /-- `Take`: before `pop_front`, with the value read. -/
  | takePop (x : α)
  /-- `Take`: before `_notFull.notify_one ()`. -/
  | takeNotify (x : α)
  /-- `Take`: before the release of the mutex. -/
  | takeUnlock (x : α)
deriving DecidableEq, Repr

variable {α : Type*}

namespace Pc

/-- Where a thread that waits for the mutex goes on once it has it.  `SimpleSyncQueue::Put`
has no test. -/
def afterLock (c : Class) : Pc α → Option (Pc α)
  | putLock x =>
    match c with
    | .syncQueue _ => some (putTest x)
    | .simpleSyncQueue => some (putPush x)
  | putWoken x => some (putTest x)
  | takeLock => some takeTest
  | takeWoken => some takeTest
  | _ => none

/-- Where `Take` goes on after `pop_front`.  `SimpleSyncQueue::Take` notifies nobody. -/
def afterPop (c : Class) (x : α) : Pc α :=
  match c with
  | .syncQueue _ => takeNotify x
  | .simpleSyncQueue => takeUnlock x

/-- A thread that is blocked on `_notEmpty` is woken. -/
def wokenNotEmpty : Pc α → Option (Pc α)
  | takeBlocked => some takeWoken
  | _ => none

/-- A thread that is blocked on `_notFull` is woken. -/
def wokenNotFull : Pc α → Option (Pc α)
  | putBlocked x => some (putWoken x)
  | _ => none

/-- The points at which a thread holds the mutex. -/
def inside : Pc α → Bool
  | putTest _ | putPush _ | putNotify _ | putUnlock _ | takeTest | takeFront | takePop _
  | takeNotify _ | takeUnlock _ => true
  | _ => false

end Pc

/-- `_queue`, and the history: the values of the completed calls of `Put` and `Take`, in
the order in which these released the mutex, and whether `front ()` or `pop_front ()` was
ever called on an empty queue. -/
structure Shared (α : Type*) where
  queue : List α
  puts : List α
  takes : List α
  fault : Bool
deriving DecidableEq, Repr

/-- A queue with its threads. -/
structure State (α : Type*) where
  shared : Shared α
  /-- The thread that holds `_mutex`. -/
  mutex : Option ℕ
  /-- The program point of every thread. -/
  threads : List (Pc α)
deriving DecidableEq, Repr

/-- A queue that was just constructed, with `n` threads. -/
def State.fresh (n : ℕ) : State α := ⟨⟨[], [], [], false⟩, none, List.replicate n .idle⟩

/-- `IsFull`: the `int` is converted to the type of `size ()`, which has 64 bits. -/
def Shared.isFull (d : Shared α) (maxSize : ℤ) : Bool := (d.queue.length : ℤ) = maxSize % 2 ^ 64

/-- `IsEmpty`. -/
def Shared.isEmpty (d : Shared α) : Bool := d.queue.isEmpty

/-- A step of thread `i`. -/
inductive Step (c : Class) (i : ℕ) (s : State α) : State α → Prop
  /-- A call of `Put`. -/
  | put (x : α) (h : s.threads[i]? = some .idle) :
      Step c i s { s with threads := s.threads.set i (.putLock x) }
  /-- A call of `Take`. -/
  | take (h : s.threads[i]? = some .idle) :
      Step c i s { s with threads := s.threads.set i .takeLock }
  /-- Acquire the mutex. -/
  | lock {p q : Pc α} (h : s.threads[i]? = some p) (hq : p.afterLock c = some q)
      (hm : s.mutex = none) :
      Step c i s { s with mutex := some i, threads := s.threads.set i q }
  /-- A spurious wake-up in `Put`. -/
  | wakePut {p q : Pc α} (h : s.threads[i]? = some p) (hq : p.wokenNotFull = some q) :
      Step c i s { s with threads := s.threads.set i q }
  /-- A spurious wake-up in `Take`. -/
  | wakeTake {p q : Pc α} (h : s.threads[i]? = some p) (hq : p.wokenNotEmpty = some q) :
      Step c i s { s with threads := s.threads.set i q }
  /-- `Put`: the queue is full, wait. -/
  | putFull {x : α} {maxSize : ℤ} (h : s.threads[i]? = some (.putTest x))
      (hc : c = .syncQueue maxSize) (hf : s.shared.isFull maxSize = true) :
      Step c i s { s with mutex := none, threads := s.threads.set i (.putBlocked x) }
  /-- `Put`: the queue is not full. -/
  | putRoom {x : α} {maxSize : ℤ} (h : s.threads[i]? = some (.putTest x))
      (hc : c = .syncQueue maxSize) (hf : s.shared.isFull maxSize = false) :
      Step c i s { s with threads := s.threads.set i (.putPush x) }
  /-- `push_back`. -/
  | push {x : α} (h : s.threads[i]? = some (.putPush x)) :
      Step c i s { s with
        shared := { s.shared with queue := s.shared.queue ++ [x] }
        threads := s.threads.set i (.putNotify x) }
  /-- `_notEmpty.notify_one ()`. -/
  | notifyNotEmpty {x : α} {ts : List (Pc α)} (h : s.threads[i]? = some (.putNotify x))
      (hn : NotifyOne Pc.wokenNotEmpty s.threads ts) :
      Step c i s { s with threads := ts.set i (.putUnlock x) }
  /-- `Put` returns. -/
  | putReturn {x : α} (h : s.threads[i]? = some (.putUnlock x)) :
      Step c i s { s with
        shared := { s.shared with puts := s.shared.puts ++ [x] }
        mutex := none, threads := s.threads.set i .idle }
  /-- `Take`: the queue is empty, wait. -/
  | takeEmpty (h : s.threads[i]? = some .takeTest) (he : s.shared.isEmpty = true) :
      Step c i s { s with mutex := none, threads := s.threads.set i .takeBlocked }
  /-- `Take`: the queue is not empty. -/
  | takeSome (h : s.threads[i]? = some .takeTest) (he : s.shared.isEmpty = false) :
      Step c i s { s with threads := s.threads.set i .takeFront }
  /-- `x = _queue.front ()`. -/
  | front {x : α} {rest : List α} (h : s.threads[i]? = some .takeFront)
      (hq : s.shared.queue = x :: rest) :
      Step c i s { s with threads := s.threads.set i (.takePop x) }
  /-- `front ()` of an empty queue. -/
  | frontFault (h : s.threads[i]? = some .takeFront) (hq : s.shared.queue = []) :
      Step c i s { s with shared := { s.shared with fault := true } }
  /-- `pop_front ()`. -/
  | pop {x y : α} {rest : List α} (h : s.threads[i]? = some (.takePop x))
      (hq : s.shared.queue = y :: rest) :
      Step c i s { s with
        shared := { s.shared with queue := rest }
        threads := s.threads.set i (Pc.afterPop c x) }
  /-- `pop_front ()` of an empty queue. -/
  | popFault {x : α} (h : s.threads[i]? = some (.takePop x)) (hq : s.shared.queue = []) :
      Step c i s { s with shared := { s.shared with fault := true } }
  /-- `_notFull.notify_one ()`. -/
  | notifyNotFull {x : α} {ts : List (Pc α)} (h : s.threads[i]? = some (.takeNotify x))
      (hn : NotifyOne Pc.wokenNotFull s.threads ts) :
      Step c i s { s with threads := ts.set i (.takeUnlock x) }
  /-- `Take` returns. -/
  | takeReturn {x : α} (h : s.threads[i]? = some (.takeUnlock x)) :
      Step c i s { s with
        shared := { s.shared with takes := s.shared.takes ++ [x] }
        mutex := none, threads := s.threads.set i .idle }

/-- A step of some thread. -/
def Next (c : Class) (s t : State α) : Prop := ∃ i, Step c i s t

/-- A queue that was just constructed, with any number of threads. -/
def Init (s : State α) : Prop := ∃ n, s = State.fresh n

/-- The states of the queue in all interleavings of its threads. -/
def Reach (c : Class) (s : State α) : Prop := Reachable Init (Next c) s

end CppExample.SyncQueue
