/-
# The life cycle of the pool

One thread makes calls of `initial`, `start` and `stop`, one after another, while the workers
go on as they like.  `stop` empties `_workers`, so that `start` creates workers again, but
nothing resets `_terminate`: the new workers leave `run` at once.  The pool works exactly when
`stop` was not called before.
-/
import CppExample.ThreadPool.Stop

namespace CppExample.ThreadPool
open Lib Relation

/-- The calls of the life cycle; the pool is not set to the size 0. -/
def Call.Lifecycle : Call → Prop
  | .initial num => 1 ≤ num
  | .start | .stop => True
  | .exec _ | .waitForAllDone _ => False

/-- The state after the calls `cs` of the only client, which is thread 0, and some steps of
the workers and of the call that is under way. -/
inductive Life : List Call → State → Prop
  | fresh : Life [] (State.fresh 1)
  | call {cs : List Call} {s : State} (c : Call) (h : Life cs s) (hc : c.Lifecycle)
      (hidle : s.threads[0]? = some .idle) : Life (cs ++ [c]) (s.goto 0 (s.enter c))
  | step {cs : List Call} {s t : State} {i : ℕ} (h : Life cs s)
      (hidle : s.threads[i]? ≠ some .idle) (hst : Step i s t) : Life cs t

/-- The pool is live: `_terminate` is not set, `_workers` has `_pool_size` workers, and the
next task that `exec` pushes can be taken and run by one of them. -/
structure Working (s : State) : Prop where
  not_stopped : s.terminate = false
  workers : s.workers.length = s.poolSize
  runs : ∀ e, ∃ w ∈ s.workers, ∃ t, ReflTransGen Next s t ∧
    t.threads[w]? = some (.body ⟨s.pushed.length, e⟩)

namespace Pc

/-- The points of the calls of the life cycle. -/
def client : Pc → Bool
  | idle | startLock | startBody => true
  | initialLock num | initialBody num => decide (1 ≤ num)
  | p => p.inStop

/-- The points of a worker that has not taken a task. -/
def calm : Pc → Bool
  | loopTest | getLock | getBody _ | getBlocked | getWoken | exited => true
  | _ => false

/-- The points of `stop` before `_terminate` is set. -/
def stopping : Pc → Bool
  | stopLock | stopBody => true
  | _ => false

/-- The points at which a thread has the mutex. -/
def inside : Pc → Bool
  | getBody _ | endBody | initialBody _ | startBody | execBody _ | waitBody _ _ | waitPred _ _ _
  | stopBody | stopClear => true
  | _ => false

end Pc

/-! ## The holder of the mutex -/

lemma inside_of_afterLock {p q : Pc} (h : p.afterLock = some q) : q.inside = true := by
  cases p <;> cases h <;> rfl

lemma not_inside_of_woken {p q : Pc} (h : p.woken = some q) : p.inside = false := by
  cases p <;> cases h <;> rfl

/-- The thread that has the mutex is at a point at which it may have it. -/
def Owned (s : State) : Prop :=
  ∀ j, s.mutex = some j → ∃ p, s.threads[j]? = some p ∧ p.inside = true

/-- A step releases the mutex, leaves it as it is at a point at which the thread does not have
it, or acquires it. -/
lemma Step.mutex_cases {i : ℕ} {s t : State} (hst : Step i s t) :
    t.mutex = none ∨
      (t.mutex = s.mutex ∧ ∃ p, s.threads[i]? = some p ∧ p.inside = false) ∨
      (t.mutex = some i ∧ ∃ q, t.threads[i]? = some q ∧ q.inside = true) := by
  cases hst with
  | lock h hq _ =>
    exact Or.inr (Or.inr
      ⟨rfl, _, getElem?_set_self_of_getElem? h _, inside_of_afterLock hq⟩)
  | wake h hq => exact Or.inr (Or.inl ⟨rfl, _, h, not_inside_of_woken hq⟩)
  | getBlock | getFalse | getTrue | endNotify | endQuiet | initialRefuse | initialSet
  | startRefuse | startSpawn | push | waitNone | waitBlock | waitTrue | waitFalse | waitAgain
  | stopSet | stopCleared => exact Or.inl rfl
  | call _ h | finish _ h => exact Or.inr (Or.inl ⟨rfl, _, h, rfl⟩)
  | _ h => exact Or.inr (Or.inl ⟨rfl, _, h, rfl⟩)

/-- A thread that has the mutex keeps it until its next step, which releases it. -/
lemma Step.owned {i : ℕ} {s t : State} (hst : Step i s t) (hs : Owned s) : Owned t := by
  intro j hj
  rcases hst.mutex_cases with hnone | ⟨hsame, p', hp', hout⟩ | ⟨hi, q, hq, hin⟩
  · rw [hnone] at hj
    cases hj
  · obtain ⟨p, hp, hin⟩ := hs j (hsame.symm.trans hj)
    have hij : i ≠ j := by
      rintro rfl
      rw [Option.some.inj (hp.symm.trans hp'), hout] at hin
      cases hin
    rcases hst.of_other hij hp with ht | ⟨q, hq, -⟩
    · exact ⟨p, ht, hin⟩
    · rw [not_inside_of_woken hq] at hin
      cases hin
  · obtain rfl := Option.some.inj (hi.symm.trans hj)
    exact ⟨q, hq, hin⟩

lemma Reach.mutex_owned {s : State} (h : Reach s) : Owned s := by
  refine Reachable.invariant ?_ ?_ h
  · rintro s ⟨n, rfl⟩ j hj
    cases hj
  · rintro s t - hs ⟨i, hst⟩
    exact hst.owned hs

/-! ## The threads of a life -/

/-- The points of thread `j`: thread 0 is the client, the others are workers. -/
def Pc.fits (j : ℕ) (p : Pc) : Bool := if j = 0 then p.client else p.calm

lemma fits_of_imp {i : ℕ} {p q : Pc} (hclient : p.client = true → q.client = true)
    (hcalm : p.calm = true → q.calm = true) (h : p.fits i = true) : q.fits i = true := by
  rw [Pc.fits] at h ⊢
  split
  · next h0 =>
    rw [if_pos h0] at h
    exact hclient h
  · next h0 =>
    rw [if_neg h0] at h
    exact hcalm h

lemma fits_of_woken {i : ℕ} {p q : Pc} (h : p.woken = some q) (hp : p.fits i = true) :
    q.fits i = true := by
  refine fits_of_imp ?_ ?_ hp
  · cases p <;> cases h <;> exact fun hf => hf
  · cases p <;> cases h <;> exact fun hf => hf

lemma fits_of_afterLock {i : ℕ} {p q : Pc} (h : p.afterLock = some q) (hp : p.fits i = true) :
    q.fits i = true := by
  refine fits_of_imp ?_ ?_ hp
  · cases p <;> cases h <;> exact fun hf => hf
  · cases p <;> cases h <;> exact fun hf => hf

/-- The thread that makes a step, other than a call, stays at its points. -/
lemma Step.fits {i : ℕ} {s t : State} (hst : Step i s t) (hidle : s.threads[i]? ≠ some .idle)
    (htasks : s.tasks = []) (hs : ∀ p, s.threads[i]? = some p → p.fits i = true) {q : Pc}
    (hq : t.threads[i]? = some q) : q.fits i = true := by
  -- a move of the thread, whoever else was woken
  have hmove : ∀ {p r : Pc}, s.threads[i]? = some p → (p.client = true → r.client = true) →
      (p.calm = true → r.calm = true) → r = q → q.fits i = true := by
    rintro p r h hclient hcalm rfl
    exact fits_of_imp hclient hcalm (hs p h)
  cases hst with
  | lock h hq' => exact eq_of_getElem?_set hq ▸ fits_of_afterLock hq' (hs _ h)
  | wake h hq' => exact eq_of_getElem?_set hq ▸ fits_of_woken hq' (hs _ h)
  | call _ h => exact absurd h hidle
  | getTrue h hg =>
    rw [(State.get_eq_some hg).2] at htasks
    cases htasks
  | startSpawn h _ =>
    exact hmove h (fun _ => rfl) (fun hf => by cases hf) (eq_idle_of_spawn h hq)
  | finish _ h =>
    exact hmove h (fun hf => by cases hf) (fun hf => by cases hf) (eq_of_getElem?_set hq)
  | _ h =>
    exact hmove h (fun hf => by first | rfl | cases hf) (fun hf => by first | rfl | cases hf)
      (eq_of_getElem?_set hq)

/-- What holds after the calls `cs`. -/
structure LifeOk (cs : List Call) (s : State) : Prop where
  threads : s.threads ≠ []
  fits : ∀ (j : ℕ) (p : Pc), s.threads[j]? = some p → p.fits j = true
  pushed : s.pushed = []
  size : 1 ≤ s.poolSize
  workers : s.workers ≠ [] → s.workers.length = s.poolSize
  stopped : Call.stop ∈ cs ↔ s.terminate = true ∨ ∃ p ∈ s.threads, p.stopping = true

lemma Life.reach {cs : List Call} {s : State} (h : Life cs s) : Reach s := by
  induction h with
  | fresh => exact .of_init ⟨1, rfl⟩
  | call c _ _ hidle ih => exact ih.tail ⟨0, .call c hidle⟩
  | step _ _ hst ih => exact ih.tail ⟨_, hst⟩

lemma LifeOk.step_fits {cs : List Call} {i : ℕ} {s t : State} (hs : LifeOk cs s)
    (htasks : s.tasks = []) (hidle : s.threads[i]? ≠ some .idle) (hst : Step i s t) (j : ℕ) (q : Pc)
    (hq : t.threads[j]? = some q) : q.fits j = true := by
  by_cases hij : i = j
  · subst hij
    exact hst.fits hidle htasks (hs.fits i) hq
  · refine hst.forall_other (P := fun p => p.fits j = true) hij (fun _ _ => fits_of_woken)
      (fun hp => ?_) (hs.fits j) hq
    have hj : j ≠ 0 := by
      rintro rfl
      have hlen : s.threads.length ≤ 0 := List.getElem?_eq_none_iff.1 hp
      exact hs.threads (List.length_eq_zero_iff.1 (Nat.le_zero.1 hlen))
    rw [Pc.fits, if_neg hj]
    rfl

lemma stopping_of_woken {p q : Pc} (h : p.woken = some q) : q.stopping = p.stopping := by
  cases p <;> cases h <;> rfl

lemma stopping_of_afterLock {p q : Pc} (h : p.afterLock = some q) : q.stopping = p.stopping := by
  cases p <;> cases h <;> rfl

/-- A step other than a call leaves it as it is whether `stop` was called. -/
lemma Step.stopped_iff {i : ℕ} {s t : State} (hst : Step i s t)
    (hidle : s.threads[i]? ≠ some .idle) :
    (t.terminate = true ∨ ∃ p ∈ t.threads, p.stopping = true) ↔
      (s.terminate = true ∨ ∃ p ∈ s.threads, p.stopping = true) := by
  have hwoken : ∀ p q : Pc, p.woken = some q → q.stopping = p.stopping := fun p q =>
    stopping_of_woken
  have hmap : ∀ {ts : List Pc}, ts.map Pc.stopping = s.threads.map Pc.stopping →
      ((∃ p ∈ ts, p.stopping = true) ↔ ∃ p ∈ s.threads, p.stopping = true) := exists_mem_congr
  cases hst with
  | lock h hq => exact or_congr Iff.rfl (hmap (map_set_of_eq h (stopping_of_afterLock hq)))
  | wake h hq => exact or_congr Iff.rfl (hmap (map_set_of_eq h (stopping_of_woken hq)))
  | call _ h => exact absurd h hidle
  | stopSet h => exact ⟨fun _ => Or.inr ⟨_, List.mem_of_getElem? h, rfl⟩, fun _ => Or.inl rfl⟩
  | endNotify h _ =>
    exact or_congr Iff.rfl (hmap ((map_set_of_eq (getElem?_notifyAll h) (by rfl)).trans
      (map_notifyAll hwoken _)))
  | push h hn =>
    exact or_congr Iff.rfl (hmap ((map_set_of_eq (hn.getElem?_of_not_blocked h rfl)
      (by rfl)).trans (hn.map_eq hwoken)))
  | startSpawn h _ =>
    refine or_congr Iff.rfl ?_
    rw [← hmap (map_set_of_eq (b := .idle) h (by rfl))]
    constructor
    · rintro ⟨p, hp, hst⟩
      rcases List.mem_append.1 hp with hp | hp
      · exact ⟨p, hp, hst⟩
      · rw [(List.mem_replicate.1 hp).2] at hst
        cases hst
    · rintro ⟨p, hp, hst⟩
      exact ⟨p, List.mem_append_left _ hp, hst⟩
  | finish _ h => exact or_congr Iff.rfl (hmap (map_set_of_eq h (by rfl)))
  | _ h => exact or_congr Iff.rfl (hmap (map_set_of_eq h (by rfl)))

lemma not_fits_execBody (i : ℕ) (e : ℤ) : (Pc.execBody e).fits i = false := by
  rw [Pc.fits]
  split <;> rfl

lemma le_of_fits_initialBody {i num : ℕ} (h : (Pc.initialBody num).fits i = true) : 1 ≤ num := by
  rw [Pc.fits] at h
  split at h
  · exact of_decide_eq_true h
  · cases h

lemma length_newWorkers (s : State) : s.newWorkers.length = s.poolSize := by
  rw [State.newWorkers, List.length_map, List.length_range]

/-- A step of a life pushes no task, and keeps the size of the pool. -/
lemma LifeOk.step_data {cs : List Call} {i : ℕ} {s t : State} (hs : LifeOk cs s)
    (hst : Step i s t) : t.pushed = [] ∧ 1 ≤ t.poolSize ∧
      (t.workers ≠ [] → t.workers.length = t.poolSize) := by
  cases hst with
  | push h _ =>
    have hfits := hs.fits i _ h
    rw [not_fits_execBody] at hfits
    cases hfits
  | initialSet h hw =>
    exact ⟨hs.pushed, le_of_fits_initialBody (hs.fits i _ h), fun hne => absurd hw hne⟩
  | startSpawn => exact ⟨hs.pushed, hs.size, fun _ => length_newWorkers s⟩
  | stopCleared => exact ⟨hs.pushed, hs.size, fun hne => absurd rfl hne⟩
  | _ => exact ⟨hs.pushed, hs.size, hs.workers⟩

lemma Step.length_le {i : ℕ} {s t : State} (hst : Step i s t) :
    s.threads.length ≤ t.threads.length := by
  cases hst with
  | startSpawn => simp
  | endNotify | stopSet => simp [notifyAll]
  | push _ hn =>
    rcases hn with ⟨j, a, b, -, -, rfl⟩ | ⟨-, rfl⟩
    · simp
    · simp
  | _ => simp [State.goto, State.leave]

/-- What a call changes. -/
lemma LifeOk.call {cs : List Call} {s : State} (hs : LifeOk cs s) {c : Call} (hc : c.Lifecycle)
    (hidle : s.threads[0]? = some .idle) : LifeOk (cs ++ [c]) (s.goto 0 (s.enter c)) := by
  constructor
  · exact fun h0 => hs.threads (by simpa [State.goto] using h0)
  · intro j p hp
    by_cases hj : j = 0
    · subst hj
      obtain rfl := eq_of_getElem?_set hp
      cases c with
      | initial num => exact decide_eq_true hc
      | start | stop => rfl
      | exec _ | waitForAllDone _ => exact hc.elim
    · rw [State.goto, List.getElem?_set_ne (Ne.symm hj)] at hp
      exact hs.fits j p hp
  · exact hs.pushed
  · exact hs.size
  · exact hs.workers
  · rw [List.mem_append, List.mem_singleton, hs.stopped]
    by_cases hstop : c = .stop
    · subst hstop
      refine ⟨fun _ => Or.inr ⟨.stopLock, ?_, rfl⟩, fun _ => Or.inr rfl⟩
      exact List.mem_of_getElem? (getElem?_set_self_of_getElem? hidle _)
    · have hmap : (s.goto 0 (s.enter c)).threads.map Pc.stopping = s.threads.map Pc.stopping := by
        refine map_set_of_eq hidle ?_
        cases c with
        | stop => exact absurd rfl hstop
        | _ => rfl
      rw [exists_mem_congr hmap]
      exact ⟨fun h => h.resolve_right (Ne.symm hstop), Or.inl⟩

lemma Life.tasks_eq_nil {cs : List Call} {s : State} (h : Life cs s) (hpushed : s.pushed = []) :
    s.tasks = [] := by
  have hfifo : s.pushed = s.taken ++ s.tasks := h.reach.accounted.fifo
  rw [hpushed] at hfifo
  exact (List.append_eq_nil_iff.1 hfifo.symm).2

lemma Life.ok {cs : List Call} {s : State} (h : Life cs s) : LifeOk cs s := by
  induction h with
  | fresh =>
    refine ⟨by simp [State.fresh], fun j p hp => ?_, rfl, Nat.le_refl 1, fun hne => absurd rfl hne,
      by simp [State.fresh, Pc.stopping]⟩
    cases j with
    | zero =>
      cases hp
      rfl
    | succ j => cases hp
  | call c _ hc hidle ih => exact ih.call hc hidle
  | step h hidle hst ih =>
    obtain ⟨hpushed, hsize, hworkers⟩ := ih.step_data hst
    have hthreads := (List.length_pos_iff.2 ih.threads).trans_le hst.length_le
    exact ⟨List.length_pos_iff.1 hthreads, ih.step_fits (h.tasks_eq_nil ih.pushed) hidle hst,
      hpushed, hsize, hworkers, ih.stopped.trans (hst.stopped_iff hidle).symm⟩

/-! ## A task that is pushed can be run -/

/-- A worker that has taken a task comes to its body. -/
lemma exists_body_of_incRunning {s : State} {w : ℕ} {x : TaskFunc}
    (h : s.threads[w]? = some (.incRunning x)) :
    ∃ t, ReflTransGen Next s t ∧ t.threads[w]? = some (.body x) := by
  -- the clock shows the expiry time itself
  have hnow : x.expired x.expireTime = false := by simp [TaskFunc.expired]
  have hset : (s.threads.set w (.expiryTest x))[w]? = some (.expiryTest x) :=
    getElem?_set_self_of_getElem? h _
  have hbegin := Step.begin (i := w)
    (s := { s.goto w (.expiryTest x) with runningCount := s.runningCount + 1 }) hset hnow
  exact ⟨_, (ReflTransGen.single ⟨w, .inc h⟩).tail ⟨w, hbegin⟩,
    getElem?_set_self_of_getElem? hset _⟩

/-- A worker with the mutex takes the task at the front of the queue. -/
lemma exists_body_of_getBody {s : State} {w : ℕ} {r : Bool} {x : TaskFunc} {rest : List TaskFunc}
    (h : s.threads[w]? = some (.getBody r)) (hterm : s.terminate = false)
    (htasks : s.tasks = x :: rest) :
    ∃ t, ReflTransGen Next s t ∧ t.threads[w]? = some (.body x) := by
  have hget : s.get r = .ret (some x) := by
    simp [State.get, State.getPred, hterm, htasks]
  obtain ⟨t, hrun, ht⟩ := exists_body_of_incRunning
    (s := { s.leave w (.incRunning x) with tasks := s.tasks.tail, taken := s.taken ++ [x] })
    (getElem?_set_self_of_getElem? h _)
  exact ⟨t, .head ⟨w, .getTrue h hget⟩ hrun, ht⟩

lemma exists_body_of_lock {s : State} {w : ℕ} {p : Pc} {r : Bool} {x : TaskFunc}
    {rest : List TaskFunc} (h : s.threads[w]? = some p) (hp : p.afterLock = some (.getBody r))
    (hm : s.mutex = none) (hterm : s.terminate = false) (htasks : s.tasks = x :: rest) :
    ∃ t, ReflTransGen Next s t ∧ t.threads[w]? = some (.body x) := by
  obtain ⟨t, hrun, ht⟩ := exists_body_of_getBody
    (s := { s.goto w (.getBody r) with mutex := some w }) (getElem?_set_self_of_getElem? h _)
    hterm htasks
  exact ⟨t, .head ⟨w, .lock h hp hm⟩ hrun, ht⟩

/-- A worker that is awake and has no task comes to the body of the next one. -/
lemma exists_body {s : State} {w : ℕ} {p : Pc} {x : TaskFunc} {rest : List TaskFunc}
    (h : s.threads[w]? = some p) (hcalm : p.calm = true) (hawake : p.awake = true)
    (hm : s.mutex = none) (hterm : s.terminate = false) (htasks : s.tasks = x :: rest) :
    ∃ t, ReflTransGen Next s t ∧ t.threads[w]? = some (.body x) := by
  cases p with
  | loopTest =>
    obtain ⟨t, hrun, ht⟩ := exists_body_of_lock (s := s.goto w .getLock)
      (getElem?_set_self_of_getElem? h _) rfl hm hterm htasks
    exact ⟨t, .head ⟨w, .loopEnter h hterm⟩ hrun, ht⟩
  | getLock => exact exists_body_of_lock h rfl hm hterm htasks
  | getWoken => exact exists_body_of_lock h rfl hm hterm htasks
  | getBody r => exact exists_body_of_getBody h hterm htasks
  | getBlocked | exited => cases hawake
  | _ => cases hcalm

lemma calm_of_woken {p q : Pc} (h : p.woken = some q) (hp : p.calm = true) : q.calm = true := by
  cases p with
  | getBlocked =>
    cases h
    rfl
  | waitBlocked _ _ => cases hp
  | _ => cases h

/-- The client can push a task. -/
lemma exists_push {s : State} (hidle : s.threads[0]? = some .idle) (hm : s.mutex = none) (e : ℤ) :
    ∃ t, ReflTransGen (Step 0) s t ∧ t.threads[0]? = some .idle ∧ t.mutex = none ∧
      t.terminate = s.terminate ∧ t.workers = s.workers ∧
      t.tasks = s.tasks ++ [⟨s.pushed.length, e⟩] := by
  have hset := getElem?_set_self_of_getElem? hidle
  obtain ⟨us, hus⟩ := NotifyOne.exists_result Pc.woken
    ((s.threads.set 0 (.execLock e)).set 0 (.execBody e))
  have hbody := getElem?_set_self_of_getElem? (hset (.execLock e)) (.execBody e)
  have hlock := Step.lock (i := 0) (s := s.goto 0 (.execLock e)) (hset _) rfl hm
  have hpush := Step.push (i := 0)
    (s := { (s.goto 0 (.execLock e)).goto 0 (.execBody e) with mutex := some 0 }) hbody hus
  refine ⟨_, ((ReflTransGen.single (.call (.exec e) hidle)).tail hlock).tail hpush, ?_, rfl, rfl,
    rfl, rfl⟩
  exact getElem?_set_self_of_getElem? (hus.getElem?_of_not_blocked hbody rfl) _

/-- The client leaves the workers without a task. -/
lemma calm_of_run {s t : State} {j : ℕ} (h : ReflTransGen (Step 0) s t) (hj : 0 ≠ j)
    (hs : ∀ p, s.threads[j]? = some p → p.calm = true) :
    ∀ p, t.threads[j]? = some p → p.calm = true := by
  induction h with
  | refl => exact hs
  | tail _ hst ih =>
    exact fun p hp => hst.forall_other hj (fun _ _ => calm_of_woken) (fun _ => rfl) ih hp

/-- When the mutex is free, the client can push a task, and then a worker comes to its
body. -/
lemma Reach.exists_run {s : State} (h : Reach s) (hidle : s.threads[0]? = some .idle)
    (hm : s.mutex = none) (hterm : s.terminate = false) (hworkers : s.workers ≠ [])
    (htasks : s.tasks = [])
    (hcalm : ∀ (j : ℕ) (p : Pc), j ≠ 0 → s.threads[j]? = some p → p.calm = true) (e : ℤ) :
    ∃ w ∈ s.workers, ∃ t, ReflTransGen Next s t ∧
      t.threads[w]? = some (.body ⟨s.pushed.length, e⟩) := by
  obtain ⟨u, hpush, hidle', hm', hterm', hworkers', htasks'⟩ := exists_push hidle hm e
  have hrun : ReflTransGen Next s u := ReflTransGen.mono (fun _ _ hst => ⟨0, hst⟩) _ _ hpush
  have hreach : Reach u := Reachable.trans h hrun
  rw [htasks, List.nil_append] at htasks'
  rw [← hterm'] at hterm
  rw [← hworkers'] at hworkers ⊢
  -- the task does not wait without a worker that is awake
  obtain ⟨p, hp, hawake⟩ := hreach.served hterm hworkers (by rw [htasks']; simp)
  obtain ⟨w, hw⟩ := List.getElem?_of_mem hp
  have hw0 : 0 ≠ w := by
    rintro rfl
    rw [Option.some.inj (hw.symm.trans hidle')] at hawake
    cases hawake
  have hcalm' := calm_of_run hpush hw0 (fun q hq => hcalm w q hw0.symm hq) p hw
  obtain ⟨t, hrun', ht⟩ := exists_body hw hcalm' hawake hm' hterm htasks'
  exact ⟨w, (hreach.live hterm).mem_workers hw (isWorker_of_awake hawake), t, hrun.trans hrun', ht⟩

/-! ## The life cycle -/

lemma LifeOk.calm {cs : List Call} {s : State} (hs : LifeOk cs s) (j : ℕ) (p : Pc) (hj : j ≠ 0)
    (hp : s.threads[j]? = some p) : p.calm = true := by
  have hfits := hs.fits j p hp
  rwa [Pc.fits, if_neg hj] at hfits

/-- Between two calls, the mutex is free or becomes free when its holder goes on. -/
lemma Life.exists_free {cs : List Call} {s : State} (h : Life cs s)
    (hidle : s.threads[0]? = some .idle) (hterm : s.terminate = false) :
    ∃ t, ReflTransGen Next s t ∧ Life cs t ∧ t.threads[0]? = some .idle ∧ t.mutex = none ∧
      t.terminate = false ∧ t.workers = s.workers := by
  cases hm : s.mutex with
  | none => exact ⟨s, .refl, h, hidle, hm, hterm, rfl⟩
  | some j =>
    obtain ⟨p, hp, hin⟩ := h.reach.mutex_owned j hm
    have hj : j ≠ 0 := by
      rintro rfl
      rw [Option.some.inj (hp.symm.trans hidle)] at hin
      cases hin
    have hcalm := h.ok.calm j p hj hp
    have htasks := h.tasks_eq_nil h.ok.pushed
    cases p with
    | getBody r =>
      have hget : s.get r = .block := by simp [State.get, State.getPred, hterm, htasks]
      have hst : Step j s (s.leave j .getBlocked) := .getBlock hp hget
      have hne : s.threads[j]? ≠ some .idle := by
        rw [hp]
        simp
      exact ⟨_, .single ⟨j, hst⟩, h.step hne hst, (List.getElem?_set_ne hj).trans hidle, rfl, hterm,
        rfl⟩
    | loopTest | getLock | getBlocked | getWoken | exited => cases hin
    | _ => cases hcalm

/-- Between two calls, `_terminate` is set when `stop` was called before. -/
lemma Life.stopped_iff {cs : List Call} {s : State} (h : Life cs s)
    (hidle : s.threads[0]? = some .idle) : s.terminate = true ↔ Call.stop ∈ cs := by
  rw [h.ok.stopped]
  refine ⟨Or.inl, fun hor => hor.resolve_right ?_⟩
  rintro ⟨p, hp, hstop⟩
  obtain ⟨j, hj⟩ := List.getElem?_of_mem hp
  by_cases hj0 : j = 0
  · subst hj0
    rw [Option.some.inj (hj.symm.trans hidle)] at hstop
    cases hstop
  · have hcalm := h.ok.calm j p hj0 hj
    cases p with
    | stopLock | stopBody => cases hcalm
    | _ => cases hstop

/-- **When a pool that was started works.**  In every sequence of calls of `initial`, `start`
and `stop` by one thread, the pool that `start` has created workers for is live, in every
state between two calls, if and only if `stop` was not called before. -/
theorem working_iff_not_stopped {cs : List Call} {s : State} (h : Life cs s)
    (hidle : s.threads[0]? = some .idle) (hworkers : s.workers ≠ []) :
    Working s ↔ Call.stop ∉ cs := by
  rw [← h.stopped_iff hidle, Bool.not_eq_true]
  refine ⟨fun hw => hw.not_stopped, fun hterm => ⟨hterm, h.ok.workers hworkers, fun e => ?_⟩⟩
  obtain ⟨t, hrun, ht, hidle', hm, hterm', hworkers'⟩ := h.exists_free hidle hterm
  rw [← hworkers'] at hworkers ⊢
  have htasks := ht.tasks_eq_nil ht.ok.pushed
  obtain ⟨w, hw, u, hrun', hu⟩ :=
    ht.reach.exists_run hidle' hm hterm' hworkers htasks ht.ok.calm e
  rw [ht.ok.pushed] at hu
  rw [h.ok.pushed]
  exact ⟨w, hw, u, hrun.trans hrun', hu⟩

/-- A pool that was started with two workers; one of them is blocked, and the other has the
mutex. -/
def startedPool : State :=
  { State.fresh 1 with
    workers := [1, 2]
    poolSize := 2
    mutex := some 2
    threads := [.idle, .getBlocked, .getBody false] }

lemma startedPool_life : Life [.initial 2, .start] startedPool := by
  have h₁ := (((Life.fresh.call (.initial 2) (by decide : 1 ≤ 2) rfl).step (i := 0)
    (by decide) (.lock rfl rfl rfl)).step (i := 0) (by decide) (.initialSet rfl rfl))
  have h₂ := ((h₁.call .start trivial rfl).step (i := 0) (by decide) (.lock rfl rfl rfl)).step
    (i := 0) (by decide) (.startSpawn rfl rfl)
  have h₃ := ((h₂.step (i := 1) (by decide) (.loopEnter rfl rfl)).step (i := 1) (by decide)
    (.lock rfl rfl rfl)).step (i := 1) (by decide) (.getBlock rfl rfl)
  exact (h₃.step (i := 2) (by decide) (.loopEnter rfl rfl)).step (i := 2) (by decide)
    (.lock rfl rfl rfl)

theorem working_startedPool : Working startedPool :=
  (working_iff_not_stopped startedPool_life rfl (by decide)).2 (by decide)

/-- A pool with one worker that was started, stopped and started again. -/
def restartedPool : State :=
  { State.fresh 1 with
    workers := [2]
    terminate := true
    threads := [.idle, .exited, .loopTest]
    joined := [1]
    deleted := [1] }

theorem not_working_restartedPool : Life [.start, .stop, .start] restartedPool ∧
    restartedPool.threads[0]? = some .idle ∧ restartedPool.workers ≠ [] ∧
      ¬ Working restartedPool := by
  have hlife : Life [.start, .stop, .start] restartedPool := by
    have h₁ := ((Life.fresh.call .start trivial rfl).step (i := 0) (by decide)
      (.lock rfl rfl rfl)).step (i := 0) (by decide) (.startSpawn rfl rfl)
    have h₂ := ((h₁.call .stop trivial rfl).step (i := 0) (by decide) (.lock rfl rfl rfl)).step
      (i := 0) (by decide) (.stopSet rfl)
    have h₃ := h₂.step (i := 1) (by decide) (.loopExit rfl rfl)
    have h₄ := ((h₃.step (i := 0) (by decide) (.stopBegin rfl)).step (i := 0) (by decide)
      (.stopIsJoinable rfl (by decide))).step (i := 0) (by decide) (.stopJoined rfl rfl)
    have h₅ := (((h₄.step (i := 0) (by decide) (.stopDeleted rfl)).step (i := 0) (by decide)
      (.stopLoopEnd rfl)).step (i := 0) (by decide) (.lock rfl rfl rfl)).step (i := 0) (by decide)
      (.stopCleared rfl)
    exact ((h₅.call .start trivial rfl).step (i := 0) (by decide) (.lock rfl rfl rfl)).step
      (i := 0) (by decide) (.startSpawn rfl rfl)
  exact ⟨hlife, rfl, by decide, fun h => by cases h.not_stopped⟩

end CppExample.ThreadPool
