/-
# Task time limits

`exec` turns the time limit of a task into an expiry time, `TNOWMS + timeout_ms` in
`int64_t` and 0 for a task without a limit; `run` compares it with the clock when a worker
has taken the task.  The sum is not checked: when it is past the largest `int64_t` it wraps
to a negative number, and a task that was to wait almost for ever is dropped as expired.
Below that bound, a limit is honoured to the millisecond.

The second half is the pool with its clock: the calls of `exec` read it, the workers read
it, and it does not run backwards.  What a worker compares is then what `exec` computed for
that task, from an earlier reading.
-/
import CppExample.ThreadPool.AllDone

namespace CppExample.ThreadPool
open Lib Relation

/-- What `exec` was given, and the reading of the clock with which it computed. -/
structure Submission where
  timeoutMs : Int64
  clock : Int64
deriving DecidableEq, Repr

namespace Submission

/-- `exec`: the expiry time of the task, where 0 stands for no limit. -/
def expireTime (sub : Submission) : Int64 :=
  if sub.timeoutMs = 0 then 0 else sub.clock + sub.timeoutMs

/-- The task that `exec` pushes, with its number. -/
def task (sub : Submission) (id : ℕ) : TaskFunc := ⟨id, sub.expireTime.toInt⟩

/-- The task may still be run at a reading of the clock: it has no limit, or the limit is not
over. -/
def InTime (sub : Submission) (now : Int64) : Prop :=
  sub.timeoutMs = 0 ∨ now.toInt ≤ sub.clock.toInt + sub.timeoutMs.toInt

/-- The sum is an `int64_t`. -/
def Fits (sub : Submission) : Prop := sub.clock.toInt + sub.timeoutMs.toInt < 2 ^ 63

/-- The submission was made at a reading of the clock that is not behind this one. -/
def Before (sub : Submission) (now : Int64) : Prop := 0 < sub.clock ∧ sub.clock ≤ now

variable {sub : Submission} {now now' : Int64}

lemma Before.mono (h : sub.Before now) (hle : now ≤ now') : sub.Before now' :=
  ⟨h.1, Int64.le_trans h.2 hle⟩

lemma Before.pos (h : sub.Before now) : 0 < now :=
  Int64.lt_of_lt_of_le h.1 h.2

lemma toInt_clock_pos (hs : 0 < sub.clock) : 0 < sub.clock.toInt := by
  simpa using Int64.lt_iff_toInt_lt.1 hs

lemma toInt_timeoutMs_pos (h0 : 0 ≤ sub.timeoutMs) (hne : sub.timeoutMs ≠ 0) :
    0 < sub.timeoutMs.toInt := by
  have hle : 0 ≤ sub.timeoutMs.toInt := by simpa using Int64.le_iff_toInt_le.1 h0
  refine lt_of_le_of_ne hle fun heq => hne (Int64.toInt_inj.1 ?_)
  simpa using heq.symm

/-- A sum that fits is exact. -/
lemma Fits.toInt_expireTime (h : sub.Fits) (h0 : 0 ≤ sub.timeoutMs) (hs : 0 < sub.clock)
    (hne : sub.timeoutMs ≠ 0) :
    sub.expireTime.toInt = sub.clock.toInt + sub.timeoutMs.toInt := by
  have hclock := toInt_clock_pos hs
  have htimeout := toInt_timeoutMs_pos h0 hne
  rw [Fits] at h
  rw [expireTime, if_neg hne, Int64.toInt_add]
  exact Int.bmod_eq_of_le (by omega) (by omega)

/-- A sum that does not fit is too small by `2 ^ 64`, and so negative. -/
lemma toInt_expireTime_of_not_fits (h : ¬ sub.Fits) (hne : sub.timeoutMs ≠ 0) :
    sub.expireTime.toInt = sub.clock.toInt + sub.timeoutMs.toInt - 2 ^ 64 := by
  have hclock := sub.clock.toInt_lt
  have htimeout := sub.timeoutMs.toInt_lt
  rw [Fits] at h
  rw [expireTime, if_neg hne, Int64.toInt_add, ← Int.sub_bmod_right]
  exact Int.bmod_eq_of_le (by push_cast; omega) (by push_cast; omega)

lemma fits_of_no_limit (h : sub.timeoutMs = 0) : sub.Fits := by
  have hclock := sub.clock.toInt_lt
  rw [Fits, h]
  simpa using hclock

/-- When the sum does not fit, the limit is far away. -/
lemma inTime_of_not_fits (sub : Submission) (hnow : now.toInt < 2 ^ 62) (h : ¬ sub.Fits) :
    sub.InTime now := by
  rw [Fits] at h
  exact Or.inr (by omega)

/-- **The expiry test.**  It lets exactly the tasks through that are in time, if the sum
fits; otherwise it lets no task through that is in time. -/
lemma expired_eq_false_iff (h0 : 0 ≤ sub.timeoutMs) (hs : 0 < sub.clock) (hnow : 0 < now)
    (id : ℕ) : (sub.task id).expired now.toInt = false ↔ sub.Fits ∧ sub.InTime now := by
  have hpos : 0 < now.toInt := by simpa using Int64.lt_iff_toInt_lt.1 hnow
  have hclock := toInt_clock_pos hs
  rw [TaskFunc.expired, decide_eq_false_iff_not, not_and_or, not_not, not_lt, task, InTime]
  by_cases hne : sub.timeoutMs = 0
  · have hzero : sub.expireTime.toInt = 0 := by rw [expireTime, if_pos hne, Int64.toInt_zero]
    exact ⟨fun _ => ⟨fits_of_no_limit hne, Or.inl hne⟩, fun _ => Or.inl hzero⟩
  · have htimeout := toInt_timeoutMs_pos h0 hne
    by_cases hfits : sub.Fits
    · simp only [hfits.toInt_expireTime h0 hs hne, hne, hfits, false_or, true_and]
      omega
    · have hwrap := toInt_expireTime_of_not_fits hfits hne
      have hclock' := sub.clock.toInt_lt
      have htimeout' := sub.timeoutMs.toInt_lt
      simp only [hfits, false_and, iff_false]
      omega

/-- The test lets through what is in time, if and only if the sum fits. -/
lemma not_expired_iff_inTime_iff (sub : Submission) (h0 : 0 ≤ sub.timeoutMs)
    (hbefore : sub.Before now) (hnow : now.toInt < 2 ^ 62) (id : ℕ) :
    ((sub.task id).expired now.toInt = false ↔ sub.InTime now) ↔ sub.Fits := by
  rw [expired_eq_false_iff h0 hbefore.1 hbefore.pos]
  exact ⟨fun hiff => by_contra fun hfits => hfits (hiff.2 (sub.inTime_of_not_fits hnow hfits)).1,
    fun hfits => and_iff_right hfits⟩

end Submission

/-! ## The step of the worker -/

/-- The step of thread `i` at the expiry test of a task, when `TNOWMS` is `now`. -/
def State.examine (s : State) (i : ℕ) (task : TaskFunc) (now : Int64) : State :=
  if task.expired now.toInt then
    { s.goto i .decRunning with settled := s.settled ++ [(task, .expired)] }
  else { s.goto i (.body task) with started := s.started ++ [task] }

lemma step_examine {s : State} {i : ℕ} {task : TaskFunc}
    (h : s.threads[i]? = some (.expiryTest task)) (now : Int64) :
    Step i s (s.examine i task now) := by
  rw [State.examine]
  split
  · next hnow => exact .expire h hnow
  · next hnow => exact .begin h (Bool.eq_false_of_not_eq_true hnow)

/-- The worker calls the body exactly if the task has not expired. -/
lemma examine_eq_body_iff {s : State} {i : ℕ} {task : TaskFunc}
    (h : s.threads[i]? = some (.expiryTest task)) (now : Int64) :
    (s.examine i task now).threads[i]? = some (.body task) ↔ task.expired now.toInt = false := by
  rw [State.examine]
  split
  · next hnow =>
    have hpc : (s.threads.set i .decRunning)[i]? = some .decRunning :=
      getElem?_set_self_of_getElem? h _
    show (s.threads.set i .decRunning)[i]? = some (.body task) ↔ _
    rw [hpc, hnow]
    simp
  · next hnow =>
    exact ⟨fun _ => Bool.eq_false_of_not_eq_true hnow,
      fun _ => getElem?_set_self_of_getElem? h _⟩

/-- **Time limits.**  When a worker examines a task at a reading of the clock that is not
before its submission, it runs the task exactly if that has no limit or is in time, if and
only if the sum of the reading at the submission and the limit is an `int64_t`. -/
theorem runs_inTime_iff {sub : Submission} {now : Int64} (h0 : 0 ≤ sub.timeoutMs)
    (hs : 0 < sub.clock) (hle : sub.clock ≤ now) (hnow : now.toInt < 2 ^ 62) {s : State}
    {i id : ℕ} (h : s.threads[i]? = some (.expiryTest (sub.task id))) :
    ((s.examine i (sub.task id) now).threads[i]? = some (.body (sub.task id)) ↔
      sub.timeoutMs = 0 ∨ now.toInt ≤ sub.clock.toInt + sub.timeoutMs.toInt) ↔
    sub.clock.toInt + sub.timeoutMs.toInt < 2 ^ 63 := by
  rw [examine_eq_body_iff h]
  exact sub.not_expired_iff_inTime_iff h0 ⟨hs, hle⟩ hnow id

/-- A limit of 5000 ms, and a worker that comes to the task after 4999 ms. -/
theorem runs_inTime_iff_shortLimit :
    ((({ State.fresh 0 with threads := [.expiryTest (Submission.task ⟨5000, 1000⟩ 0)] } :
        State).examine 0 (Submission.task ⟨5000, 1000⟩ 0) 5999).threads[0]?
          = some (.body (Submission.task ⟨5000, 1000⟩ 0)) ↔
      (5000 : Int64) = 0 ∨ (5999 : Int64).toInt ≤ (1000 : Int64).toInt + (5000 : Int64).toInt) ↔
    (1000 : Int64).toInt + (5000 : Int64).toInt < 2 ^ 63 :=
  runs_inTime_iff (by decide) (by decide) (by decide) (by decide) rfl

/-! ## The pool with its clock -/

/-- A test of the expiry time: the task, the reading of the clock, and whether the task was
run. -/
structure Examination where
  task : TaskFunc
  clock : Int64
  ran : Bool

/-- The points at which a thread does not use the clock or push a task. -/
def Pc.untimed : Pc → Bool
  | .execBody _ | .expiryTest _ => false
  | _ => true

/-- The pool, its clock, and the history of the limits. -/
structure Timed where
  pool : State
  /-- What `TNOWMS` reads. -/
  clock : Int64
  /-- The last submission of each thread. -/
  pending : ℕ → Submission
  /-- The submissions of the tasks that were pushed so far. -/
  submitted : List Submission
  /-- The tests of expiry times so far. -/
  examined : List Examination

/-- The point at which `exec` has just computed. -/
def Pc.isExecLock : Pc → Bool
  | .execLock _ => true
  | _ => false

/-- The expiry time that a thread in `exec` has computed. -/
def Pc.submits : Pc → Option ℤ
  | .execLock e | .execBody e => some e
  | _ => none

/-- A thread comes to the push only from in front of the lock. -/
lemma Step.of_execBody {i : ℕ} {s t : State} (hst : Step i s t) {e : ℤ}
    (h : t.threads[i]? = some (.execBody e)) : s.threads[i]? = some (.execLock e) := by
  cases hst with
  | @lock p _ h' hq =>
    obtain rfl := eq_of_getElem?_set h
    rw [h']
    cases p <;> cases hq
    rfl
  | @wake p _ _ hq =>
    obtain rfl := eq_of_getElem?_set h
    cases p <;> cases hq
  | call c =>
    have henter := eq_of_getElem?_set h
    cases c <;> cases henter
  | startSpawn h' _ => cases eq_idle_of_spawn h' h
  | _ => cases eq_of_getElem?_set h

/-- The other steps of the pool compute no expiry time. -/
lemma Step.submits {i j : ℕ} {s t : State} (hst : Step i s t)
    (hexec : ∀ e, t.threads[i]? ≠ some (.execLock e)) {q : Pc} {e : ℤ}
    (h : t.threads[j]? = some q) (hq : q.submits = some e) :
    ∃ p, s.threads[j]? = some p ∧ p.submits = some e := by
  by_cases hij : i = j
  · subst hij
    cases q <;> cases hq
    · exact absurd h (hexec e)
    · exact ⟨_, hst.of_execBody h, rfl⟩
  · cases hst.other hij with
    | same heq => exact ⟨q, heq ▸ h, hq⟩
    | @woken p q' hp hw hq' =>
      obtain rfl := Option.some.inj (hq'.symm.trans h)
      cases p <;> cases hw <;> cases hq
    | spawned _ hq' =>
      obtain rfl := Option.some.inj (hq'.symm.trans h)
      cases hq

/-- The step of `exec` with the mutex. -/
lemma Step.push_of_execBody {i : ℕ} {s t : State} (hst : Step i s t) {e : ℤ}
    (h : s.threads[i]? = some (.execBody e)) :
    t.pushed = s.pushed ++ [⟨s.pushed.length, e⟩] ∧
      ∀ e', t.threads[i]? ≠ some (.execLock e') := by
  have hpc : ∀ {p : Pc}, s.threads[i]? = some p → p = .execBody e := fun h' =>
    Option.some.inj (h'.symm.trans h)
  cases hst with
  | push h' hn =>
    cases hpc h'
    exact ⟨rfl, fun e' he' => by cases eq_of_getElem?_set he'⟩
  | lock h' hq | wake h' hq =>
    rw [hpc h'] at hq
    cases hq
  | call _ h' | finish _ h' => cases hpc h'
  | _ h' => cases hpc h'

/-- Tasks are pushed by `exec` only. -/
lemma Step.pushed_eq {i : ℕ} {s t : State} (hst : Step i s t) {p : Pc}
    (h : s.threads[i]? = some p) (hp : ∀ e, p ≠ .execBody e) : t.pushed = s.pushed := by
  cases hst with
  | push h' _ => exact absurd (Option.some.inj (h.symm.trans h')) (hp _)
  | _ => rfl

namespace Timed

/-- What can happen. -/
inductive Step (x : Timed) : Timed → Prop
  /-- Time goes on. -/
  | tick {now : Int64} (h : x.clock ≤ now) : Step x { x with clock := now }
  /-- A client calls `exec`, which computes the expiry time. -/
  | exec {i : ℕ} (timeoutMs : Int64) (h : x.pool.threads[i]? = some .idle) :
      Step x { x with
        pool := x.pool.goto i
          (x.pool.enter (.exec (Submission.expireTime ⟨timeoutMs, x.clock⟩).toInt))
        pending := Function.update x.pending i ⟨timeoutMs, x.clock⟩ }
  /-- `exec` pushes the task. -/
  | push {i : ℕ} {e : ℤ} {s : State} (h : x.pool.threads[i]? = some (.execBody e))
      (hst : ThreadPool.Step i x.pool s) :
      Step x { x with pool := s, submitted := x.submitted ++ [x.pending i] }
  /-- A worker tests an expiry time. -/
  | examine {i : ℕ} {task : TaskFunc} (h : x.pool.threads[i]? = some (.expiryTest task)) :
      Step x { x with
        pool := x.pool.examine i task x.clock
        examined := x.examined ++ [⟨task, x.clock, !task.expired x.clock.toInt⟩] }
  /-- Any other step of the pool. -/
  | other {i : ℕ} {p : Pc} {s : State} (h : x.pool.threads[i]? = some p)
      (hp : p.untimed = true) (hst : ThreadPool.Step i x.pool s)
      (hexec : ∀ e, s.threads[i]? ≠ some (.execLock e)) : Step x { x with pool := s }

/-- A pool that was just constructed, at a reading of the clock. -/
def Init (x : Timed) : Prop :=
  (∃ n, x.pool = State.fresh n) ∧ 0 < x.clock ∧ x.submitted = [] ∧ x.examined = []

/-- The states of the pool with its clock. -/
def Reach (x : Timed) : Prop := Reachable Init Step x

variable {x y : Timed}

/-- Without the clock, it is the pool. -/
lemma Step.next (h : Step x y) : y.pool = x.pool ∨ Next x.pool y.pool := by
  cases h with
  | tick => exact Or.inl rfl
  | exec timeoutMs h => exact Or.inr ⟨_, .call _ h⟩
  | push _ hst => exact Or.inr ⟨_, hst⟩
  | examine h => exact Or.inr ⟨_, step_examine h _⟩
  | other _ _ hst _ => exact Or.inr ⟨_, hst⟩

lemma Reach.pool (h : Reach x) : ThreadPool.Reach x.pool := by
  refine Reachable.invariant (I := fun x : Timed => ThreadPool.Reach x.pool) ?_ ?_ h
  · rintro x ⟨hfresh, -⟩
    exact .of_init hfresh
  · rintro x y - hx hst
    rcases hst.next with heq | hnext
    · rw [heq]
      exact hx
    · exact hx.tail hnext

/-- The invariant of the pool with its clock. -/
structure Inv (x : Timed) : Prop where
  clock : 0 < x.clock
  /-- The tasks are those of the submissions, in their order. -/
  tasks : x.pool.pushed = x.submitted.mapIdx fun id sub => sub.task id
  past : ∀ sub ∈ x.submitted, sub.Before x.clock
  /-- A thread in `exec` carries the expiry time of its own submission. -/
  pending : ∀ i p e, x.pool.threads[i]? = some p → p.submits = some e →
    e = (x.pending i).expireTime.toInt ∧ (x.pending i).Before x.clock
  /-- A worker has compared the expiry time of the submission of its task. -/
  examined : ∀ e ∈ x.examined, ∃ sub, x.submitted[e.task.id]? = some sub ∧
    e.task = sub.task e.task.id ∧ sub.Before e.clock ∧ e.ran = !e.task.expired e.clock.toInt

/-- A step of the pool that is not the beginning of `exec` keeps what the threads carry. -/
lemma Inv.pending_of_step (hx : x.Inv) {i : ℕ} {s : State} (hst : ThreadPool.Step i x.pool s)
    (hexec : ∀ e, s.threads[i]? ≠ some (.execLock e)) (j : ℕ) (q : Pc) (e : ℤ)
    (h : s.threads[j]? = some q) (hq : q.submits = some e) :
    e = (x.pending j).expireTime.toInt ∧ (x.pending j).Before x.clock := by
  obtain ⟨p, hp, hsub⟩ := hst.submits hexec h hq
  exact hx.pending j p e hp hsub

/-- The task that a worker examines is that of an earlier submission. -/
lemma Inv.exists_submission (hx : x.Inv) (hreach : x.Reach) {i : ℕ} {task : TaskFunc}
    (h : x.pool.threads[i]? = some (.expiryTest task)) :
    ∃ sub, x.submitted[task.id]? = some sub ∧ task = sub.task task.id ∧ sub.Before x.clock := by
  have hmem := hreach.pool.mem_pushed_of_holds ⟨_, h, rfl⟩
  rw [hx.tasks, List.mem_mapIdx] at hmem
  obtain ⟨id, hlt, rfl⟩ := hmem
  exact ⟨_, List.getElem?_eq_getElem hlt, rfl, hx.past _ (List.getElem_mem hlt)⟩

/-- The beginning of `exec`: the thread carries what it has computed. -/
lemma Inv.exec (hx : x.Inv) (i : ℕ) (sub : Submission) (hsub : sub.clock = x.clock) :
    Inv { x with
      pool := x.pool.goto i (.execLock sub.expireTime.toInt)
      pending := Function.update x.pending i sub } := by
  refine ⟨hx.clock, hx.tasks, hx.past, fun j p e hp hq => ?_, hx.examined⟩
  by_cases hij : i = j
  · subst hij
    obtain rfl := eq_of_getElem?_set hp
    obtain rfl := Option.some.inj hq
    dsimp only
    rw [Function.update_self]
    exact ⟨rfl, hsub ▸ hx.clock, hsub ▸ Int64.le_refl _⟩
  · have hp' : x.pool.threads[j]? = some p := (List.getElem?_set_ne hij).symm.trans hp
    dsimp only
    rw [Function.update_of_ne (Ne.symm hij)]
    exact hx.pending j p e hp' hq

/-- The push: the next task is that of the submission of the thread. -/
lemma Inv.push (hx : x.Inv) {i : ℕ} {e : ℤ} {s : State}
    (h : x.pool.threads[i]? = some (.execBody e)) (hst : ThreadPool.Step i x.pool s) :
    Inv { x with pool := s, submitted := x.submitted ++ [x.pending i] } := by
  obtain ⟨hpushed, hexec⟩ := hst.push_of_execBody h
  obtain ⟨he, hbefore⟩ := hx.pending i _ e h rfl
  have hlen : x.pool.pushed.length = x.submitted.length := by
    rw [hx.tasks, List.length_mapIdx]
  refine ⟨hx.clock, ?_, fun sub hsub => ?_, hx.pending_of_step hst hexec, fun ex hex => ?_⟩
  · show s.pushed = _
    rw [hpushed, List.mapIdx_concat, ← hx.tasks, hlen, he]
    rfl
  · rcases List.mem_append.1 hsub with hsub | hsub
    · exact hx.past sub hsub
    · rw [List.mem_singleton.1 hsub]
      exact hbefore
  · obtain ⟨sub, hsub, hrest⟩ := hx.examined ex hex
    have hlt := (List.getElem?_eq_some_iff.1 hsub).1
    exact ⟨sub, (List.getElem?_append_left hlt).trans hsub, hrest⟩

/-- The test: the worker compares what `exec` has computed for its task. -/
lemma Inv.examine (hx : x.Inv) (hreach : x.Reach) {i : ℕ} {task : TaskFunc}
    (h : x.pool.threads[i]? = some (.expiryTest task)) :
    Inv { x with
      pool := x.pool.examine i task x.clock
      examined := x.examined ++ [⟨task, x.clock, !task.expired x.clock.toInt⟩] } := by
  have hst := step_examine h x.clock
  have hexec : ∀ e, (x.pool.examine i task x.clock).threads[i]? ≠ some (.execLock e) := by
    intro e he
    rw [State.examine] at he
    split at he
    · cases eq_of_getElem?_set he
    · cases eq_of_getElem?_set he
  refine ⟨hx.clock, ?_, hx.past, hx.pending_of_step hst hexec, fun ex hex => ?_⟩
  · exact (hst.pushed_eq h fun e he => by cases he).trans hx.tasks
  · rcases List.mem_append.1 hex with hex | hex
    · exact hx.examined ex hex
    · rw [List.mem_singleton.1 hex]
      obtain ⟨sub, hsub, htask, hbefore⟩ := hx.exists_submission hreach h
      exact ⟨sub, hsub, htask, hbefore, rfl⟩

lemma Step.inv (hst : Step x y) (hreach : x.Reach) (hx : x.Inv) : y.Inv := by
  cases hst with
  | tick h =>
    refine ⟨Int64.lt_of_lt_of_le hx.clock h, hx.tasks, fun sub hsub => (hx.past sub hsub).mono h,
      fun i p e hp hq => ?_, hx.examined⟩
    obtain ⟨he, hbefore⟩ := hx.pending i p e hp hq
    exact ⟨he, hbefore.mono h⟩
  | @exec i timeoutMs h => exact hx.exec i ⟨timeoutMs, x.clock⟩ rfl
  | push h hst => exact hx.push h hst
  | examine h => exact hx.examine hreach h
  | @other i p s h hp hst hexec =>
    refine ⟨hx.clock, ?_, hx.past, hx.pending_of_step hst hexec, hx.examined⟩
    exact (hst.pushed_eq h fun e he => by rw [he] at hp; cases hp).trans hx.tasks

lemma Reach.inv (h : x.Reach) : x.Inv := by
  refine Reachable.invariant (I := fun x : Timed => x.Inv) ?_ ?_ h
  · rintro x ⟨⟨n, hpool⟩, hclock, hsub, hex⟩
    refine ⟨hclock, ?_, ?_, fun i p e hp hsubmits => ?_, ?_⟩
    · rw [hpool, hsub]
      rfl
    · rw [hsub]
      exact fun sub hsub => absurd hsub List.not_mem_nil
    · rw [hpool] at hp
      obtain ⟨-, rfl⟩ := List.mem_replicate.1 (List.mem_of_getElem? hp)
      cases hsubmits
    · rw [hex]
      exact fun e he => absurd he List.not_mem_nil
  · exact fun x y hreach hx hst => hst.inv hreach hx

/-- **Time limits in every run.**  Whatever the clients and the workers do, and in whatever
order: a task that was examined was run exactly if it was in time, counted from the reading
of the clock in its own call of `exec`, if and only if the sum fits. -/
theorem Reach.ran_iff_inTime (h : x.Reach) {e : Examination} (he : e ∈ x.examined)
    (hnow : e.clock.toInt < 2 ^ 62) :
    ∃ sub, x.submitted[e.task.id]? = some sub ∧ sub.Before e.clock ∧
      (0 ≤ sub.timeoutMs → ((e.ran = true ↔ sub.InTime e.clock) ↔ sub.Fits)) := by
  obtain ⟨sub, hsub, htask, hbefore, hran⟩ := h.inv.examined e he
  refine ⟨sub, hsub, hbefore, fun h0 => ?_⟩
  rw [hran, Bool.not_eq_true', htask]
  exact sub.not_expired_iff_inTime_iff h0 hbefore hnow _

/-- A step of thread `i` from the point `p` to the point `q`. -/
lemma Reach.other (h : x.Reach) (i : ℕ) (p q : Pc) {s : State}
    (hst : ThreadPool.Step i x.pool s) (hp : x.pool.threads[i]? = some p)
    (hq : s.threads[i]? = some q) (hu : p.untimed = true) (hne : q.isExecLock = false) :
    ({ x with pool := s } : Timed).Reach := by
  refine h.tail (.other hp hu hst fun e he => ?_)
  rw [Option.some.inj (hq.symm.trans he)] at hne
  cases hne

/-- `INT64_MAX`, asked for when the clock reads 1. -/
def longestLimit : Submission := ⟨9223372036854775807, 1⟩

/-- A pool with one worker and one client, in front of the expiry test of the task that the
client has submitted with the longest limit, at the same reading of the clock. -/
def longestLimitTaken : Timed where
  pool :=
    { State.fresh 1 with
      workers := [1]
      runningCount := 1
      threads := [.idle, .expiryTest (longestLimit.task 0)]
      pushed := [longestLimit.task 0]
      taken := [longestLimit.task 0] }
  clock := 1
  pending := Function.update (fun _ => ⟨0, 1⟩) 0 longestLimit
  submitted := [longestLimit]
  examined := []

lemma longestLimitTaken_reach : longestLimitTaken.Reach := by
  have h₀ : Reach ⟨State.fresh 1, 1, fun _ => ⟨0, 1⟩, [], []⟩ :=
    .of_init ⟨⟨1, rfl⟩, by decide, rfl, rfl⟩
  -- the client starts the pool
  have h₁ := h₀.other 0 .idle .startLock (.call .start rfl) rfl rfl rfl rfl
  have h₂ := h₁.other 0 .startLock .startBody (.lock rfl rfl rfl) rfl rfl rfl rfl
  have h₃ := h₂.other 0 .startBody .idle (.startSpawn rfl rfl) rfl rfl rfl rfl
  -- it submits the task
  have h₄ : Reach _ := h₃.tail (.exec longestLimit.timeoutMs (i := 0) rfl)
  have h₅ := h₄.other 0 (.execLock longestLimit.expireTime.toInt)
    (.execBody longestLimit.expireTime.toInt) (.lock rfl rfl rfl) rfl rfl rfl rfl
  have h₆ : Reach _ := h₅.tail (.push (i := 0) rfl (.push rfl (Or.inr ⟨by decide, rfl⟩)))
  -- the worker takes it
  have h₇ := h₆.other 1 .loopTest .getLock (.loopEnter rfl rfl) rfl rfl rfl rfl
  have h₈ := h₇.other 1 .getLock (.getBody false) (.lock rfl rfl rfl) rfl rfl rfl rfl
  have h₉ := h₈.other 1 (.getBody false) (.incRunning (longestLimit.task 0))
    (.getTrue rfl rfl) rfl rfl rfl rfl
  exact h₉.other 1 (.incRunning (longestLimit.task 0)) (.expiryTest (longestLimit.task 0))
    (.inc rfl) rfl rfl rfl rfl

/-- The worker drops the task in the millisecond in which it was submitted. -/
theorem longestLimit_dropped : longestLimitTaken.Reach ∧
    ¬ ((longestLimitTaken.pool.examine 1 (longestLimit.task 0) 1).threads[1]?
          = some (.body (longestLimit.task 0)) ↔
        longestLimit.timeoutMs = 0 ∨
          (1 : Int64).toInt ≤ longestLimit.clock.toInt + longestLimit.timeoutMs.toInt) :=
  ⟨longestLimitTaken_reach, by decide⟩

end Timed

end CppExample.ThreadPool
