/-
# The results of the tasks

`exec` returns a future, and what it pushes is a `packaged_task`.  When a worker calls it, the
result of the function, or the exception that the function throws, goes to the future, and nothing
is thrown any more.  If it is destroyed and was never called, then the future has a broken promise.

A task that was taken belongs to the variable `task` of its worker, which is destroyed at the end
of the round, after the mutex was released; so the caller of `exec` learns that its task has expired
later than the caller of `wait_for_all_done`.  What is left in the queue is destroyed with the pool.
The pointers of `exec` itself are gone before its caller has the future, so they keep nothing alive
that he could see.

A future never has the result of another task, and once it has something it keeps it.  Where the
pool rests the callers of `exec` can have their results, and nobody waits for a result when the pool
has been destroyed.
-/
import CppExample.ThreadPool.Drain
import CppExample.ThreadPool.Timeout

namespace CppExample.ThreadPool
open Lib Relation

variable {R E : Type}

/-- What a future and its `packaged_task` share. -/
inductive SharedState (R E : Type) where
  | pending
  | value (r : R)
  | exception (e : E)
  /-- `broken_promise`. -/
  | broken
deriving DecidableEq, Repr

namespace SharedState

/-- A call of the `packaged_task`, with what its function returns or throws. -/
def call : Except E R → SharedState R E
  | .ok r => value r
  | .error e => exception e

/-- The `packaged_task` is destroyed. -/
def abandon : SharedState R E → SharedState R E
  | pending => broken
  | s => s

@[simp] lemma abandon_pending : (pending : SharedState R E).abandon = broken := rfl

@[simp] lemma abandon_broken : (broken : SharedState R E).abandon = broken := rfl

@[simp] lemma abandon_call (r : Except E R) : (call r).abandon = call r := by
  cases r <;> rfl

end SharedState

/-- The pool, with the variable `task` of `run` in every thread and the futures of the tasks in the
order of their numbers. -/
structure Promised (R E : Type) where
  pool : State
  task : ℕ → Option TaskFunc
  futures : List (SharedState R E)

namespace Promised

def start (R E : Type) (n : ℕ) : Promised R E := ⟨State.fresh n, fun _ => none, []⟩

/-- The steps of the pool.  `func id` is what the function of a task returns or throws. -/
inductive Step (func : ℕ → Except E R) (x : Promised R E) : Promised R E → Prop
  /-- `exec` pushes the task, and returns the future. -/
  | push {i : ℕ} {e : ℤ} {s : State} (h : x.pool.threads[i]? = some (.execBody e))
      (hst : ThreadPool.Step i x.pool s) :
      Step func x { x with pool := s, futures := x.futures ++ [.pending] }
  /-- `get` stores a task in `task`. -/
  | get {i : ℕ} {r : Bool} {t : TaskFunc} {s : State}
      (h : x.pool.threads[i]? = some (.getBody r)) (hg : x.pool.get r = .ret (some t))
      (hst : ThreadPool.Step i x.pool s) :
      Step func x { x with pool := s, task := Function.update x.task i (some t) }
  /-- The `packaged_task` is called. -/
  | call {i : ℕ} {t : TaskFunc} (h : x.pool.threads[i]? = some (.body t)) :
      Step func x { x with
        pool := { x.pool.goto i .decRunning with
          settled := x.pool.settled ++ [(t, .ran false)] }
        futures := x.futures.modify t.id fun _ => .call (func t.id) }
  /-- The end of a round: `task` is destroyed. -/
  | destroy {i : ℕ} {t : TaskFunc} (h : x.pool.threads[i]? = some .loopTest)
      (ht : x.task i = some t) :
      Step func x { x with
        task := Function.update x.task i none
        futures := x.futures.modify t.id SharedState.abandon }
  /-- Any other step of the pool. -/
  | other {i : ℕ} {p : Pc} {s : State} (h : x.pool.threads[i]? = some p)
      (hexec : ∀ e, p ≠ .execBody e) (hbody : ∀ t, p ≠ .body t)
      (hget : ∀ r t, p = .getBody r → x.pool.get r ≠ .ret (some t))
      (hloop : p = .loopTest → x.task i = none) (hst : ThreadPool.Step i x.pool s) :
      Step func x { x with pool := s }

/-- The destructor: `stop` has returned, and the members of the pool are destroyed, the queue among
them. -/
def destructor (x : Promised R E) : List (SharedState R E) :=
  x.futures.mapIdx fun id f => if id ∈ x.pool.tasks.map TaskFunc.id then f.abandon else f

end Promised

/-! ## What the other steps do -/

/-- The points at which `task` is not empty. -/
def Pc.hasTask (p : Pc) : Bool := p.inRound || p == .loopTest

lemma hasTask_of_afterLock {p q : Pc} (h : p.afterLock = some q) (hp : p.hasTask = true) :
    q.hasTask = true := by
  cases p <;> cases h <;> first | rfl | cases hp

lemma woken_of_hasTask {p : Pc} (h : p.hasTask = true) : p.woken = none := by
  cases p <;> first | rfl | cases h

section Other

variable {i : ℕ} {s t : State} {p : Pc} {x : TaskFunc}

/-- A step that neither pushes nor takes nor runs a task. -/
lemma Step.plain (hst : Step i s t) (h : s.threads[i]? = some p) (hexec : ∀ e, p ≠ .execBody e)
    (hbody : ∀ x, p ≠ .body x) (hget : ∀ r x, p = .getBody r → s.get r ≠ .ret (some x)) :
    t.pushed = s.pushed ∧
      (t.settled = s.settled ∧ (∃ q, t.threads[i]? = some q ∧ q.held = p.held ∧
          (p.hasTask = true → p ≠ .loopTest → q.hasTask = true)) ∨
        ∃ x, p = .expiryTest x ∧ t.settled = s.settled ++ [(x, .expired)] ∧
          t.threads[i]? = some .decRunning) := by
  have hsame : ∀ {p' : Pc}, s.threads[i]? = some p' → p = p' := fun h' =>
    Option.some.inj (h.symm.trans h')
  have hset : ∀ {p' : Pc}, s.threads[i]? = some p' → ∀ q : Pc, (s.threads.set i q)[i]? = some q :=
    fun h' q => getElem?_set_self_of_getElem? h' q
  cases hst with
  | lock h' hq =>
    obtain rfl := hsame h'
    exact ⟨rfl, .inl ⟨rfl, _, hset h' _, held_of_afterLock hq,
      fun hp _ => hasTask_of_afterLock hq hp⟩⟩
  | wake h' hq =>
    obtain rfl := hsame h'
    refine ⟨rfl, .inl ⟨rfl, _, hset h' _, held_of_woken hq, fun hp => ?_⟩⟩
    rw [woken_of_hasTask hp] at hq
    cases hq
  | getTrue h' hg =>
    obtain rfl := hsame h'
    exact absurd hg (hget _ _ rfl)
  | expire h' =>
    obtain rfl := hsame h'
    exact ⟨rfl, .inr ⟨_, rfl, rfl, hset h' _⟩⟩
  | finish _ h' => exact absurd (hsame h') (hbody _)
  | push h' => exact absurd (hsame h') (hexec _)
  | call c h' =>
    obtain rfl := hsame h'
    exact ⟨rfl, .inl ⟨rfl, _, hset h' _, by cases c <;> rfl, fun hp => by cases hp⟩⟩
  | endNotify h' | stopSet h' =>
    obtain rfl := hsame h'
    exact ⟨rfl, .inl ⟨rfl, _, getElem?_set_self_of_getElem? (getElem?_notifyAll h') _, rfl,
      fun hp _ => hp⟩⟩
  | startSpawn h' =>
    obtain rfl := hsame h'
    have hlt := (List.getElem?_eq_some_iff.1 h').1
    refine ⟨rfl, .inl ⟨rfl, .idle, ?_, rfl, fun hp => by cases hp⟩⟩
    rw [List.getElem?_append_left (by rwa [List.length_set])]
    exact hset h' _
  | loopExit h' | loopEnter h' =>
    obtain rfl := hsame h'
    exact ⟨rfl, .inl ⟨rfl, _, hset h' _, rfl, fun _ hne => absurd rfl hne⟩⟩
  | inc h' | begin h' | dec h' | endQuiet h' =>
    obtain rfl := hsame h'
    exact ⟨rfl, .inl ⟨rfl, _, hset h' _, rfl, fun _ _ => rfl⟩⟩
  | timeout h' | lateTimeout h' | getBlock h' | getFalse h' | initialRefuse h' | initialSet h'
  | startRefuse h' | waitNone h' | waitBlock h' | waitTrue h' | waitFalse h' | waitAgain h'
  | waitDone h' | stopBegin h' | stopIsJoinable h' | stopNotJoinable h' | stopJoined h'
  | stopDeleted h' | stopLoopEnd h' | stopCleared h' =>
    obtain rfl := hsame h'
    exact ⟨rfl, .inl ⟨rfl, _, hset h' _, rfl, fun hp => by cases hp⟩⟩

/-- A step of another thread leaves a thread in its round. -/
lemma Step.hasTask_of_other {j : ℕ} (hst : Step i s t) (hij : i ≠ j) (h : s.threads[j]? = some p)
    (hp : p.hasTask = true) : t.threads[j]? = some p := by
  rcases hst.of_other hij h with h' | ⟨q, hq, -⟩
  · exact h'
  · rw [woken_of_hasTask hp] at hq
    cases hq

/-- A step of another thread gives no task to a thread. -/
lemma Step.of_holds_other {j : ℕ} (hst : Step i s t) (hij : i ≠ j) (h : t.Holds j x) :
    s.Holds j x := by
  obtain ⟨q, hq, hx⟩ := h
  cases hst.other hij with
  | same heq => exact ⟨q, heq ▸ hq, hx⟩
  | woken hp hw hq' =>
    obtain rfl := Option.some.inj (hq'.symm.trans hq)
    exact ⟨_, hp, (held_of_woken hw).symm.trans hx⟩
  | spawned hp hq' =>
    obtain rfl := Option.some.inj (hq'.symm.trans hq)
    cases hx

end Other

/-! ## The history -/

lemma Reach.mem_pushed_of_settled {s : State} (h : Reach s) {x : TaskFunc} (hx : s.Settled x) :
    x ∈ s.pushed := by
  obtain ⟨f, hf⟩ := hx
  have hfifo : s.pushed = s.taken ++ s.tasks := h.accounted.fifo
  have htaken : (s.taken : Multiset TaskFunc) = s.held + (s.settled.map Prod.fst : List TaskFunc) :=
    h.accounted.taken_eq
  have hmem : x ∈ (s.taken : Multiset TaskFunc) := by
    rw [htaken]
    exact Multiset.mem_add.2 (Or.inr (Multiset.mem_coe.2 (List.mem_map_of_mem hf)))
  rw [hfifo]
  exact List.mem_append_left _ (Multiset.mem_coe.1 hmem)

/-- A task has one fate. -/
lemma Reach.not_ran_and_expired {s : State} (h : Reach s) {x : TaskFunc} {threw : Bool}
    (hran : (x, .ran threw) ∈ s.settled) : (x, .expired) ∉ s.settled := by
  intro hexp
  have hone := h.one_place (h.mem_pushed_of_settled ⟨_, hran⟩)
  have hdropped : 0 < s.droppedTimes x := List.count_pos_iff.2 hexp
  have hranTimes : 0 < s.ranTimes x :=
    List.count_pos_iff.2 (List.mem_map.2 ⟨_, List.mem_filter.2 ⟨hran, rfl⟩, rfl⟩)
  omega

lemma Reach.eq_of_id_eq {s : State} (h : Reach s) {x y : TaskFunc} (hx : x ∈ s.pushed)
    (hy : y ∈ s.pushed) (hid : x.id = y.id) : x = y := by
  have hnd : (s.pushed.map TaskFunc.id).Nodup := by
    rw [h.pushed_ids]
    exact List.nodup_range
  exact List.inj_on_of_nodup_map hnd hx hy hid

lemma Reach.id_lt {s : State} (h : Reach s) {x : TaskFunc} (hx : x ∈ s.pushed) :
    x.id < s.pushed.length := by
  have hmem : x.id ∈ s.pushed.map TaskFunc.id := List.mem_map_of_mem hx
  rw [h.pushed_ids] at hmem
  exact List.mem_range.1 hmem

/-- A task in the queue is not settled. -/
lemma Reach.not_settled_of_mem {s : State} (h : Reach s) {x : TaskFunc} (hx : x ∈ s.tasks) :
    ¬ s.Settled x := by
  intro hs
  have hone := h.one_place (h.mem_pushed_of_settled hs)
  have hcount : 0 < s.tasks.count x := List.count_pos_iff.2 hx
  have hdone := settled_iff.1 hs
  omega

/-- Only a task with a time limit expires. -/
lemma Reach.expireTime_ne_zero {s : State} (h : Reach s) :
    ∀ x, (x, .expired) ∈ s.settled → x.expireTime ≠ 0 := by
  refine Reachable.invariant
    (I := fun s : State => ∀ x, (x, .expired) ∈ s.settled → x.expireTime ≠ 0) ?_ ?_ h
  · rintro s ⟨n, rfl⟩ x hx
    cases hx
  · rintro s t - hs ⟨i, hst⟩
    cases hst with
    | @expire y now h hnow =>
      intro x hx
      rcases List.mem_append.1 hx with hx | hx
      · exact hs x hx
      · obtain ⟨rfl, -⟩ := Prod.mk.inj (List.mem_singleton.1 hx)
        exact (of_decide_eq_true hnow).1
    | finish threw h =>
      intro x hx
      rcases List.mem_append.1 hx with hx | hx
      · exact hs x hx
      · cases List.mem_singleton.1 hx
    | _ => exact hs

namespace Promised

variable {func : ℕ → Except E R} {x y : Promised R E} {i : ℕ} {t : TaskFunc}

/-! ## What the futures have -/

/-- The future of a task has what its own function returned or threw, if the task was run to its
end; a broken promise if it has expired, once its worker has ended the round; and nothing before. -/
structure Kept (func : ℕ → Except E R) (x : Promised R E) (t : TaskFunc) : Prop where
  ran : ∀ threw, (t, .ran threw) ∈ x.pool.settled → x.futures[t.id]? = some (.call (func t.id))
  expired : (t, .expired) ∈ x.pool.settled → x.futures[t.id]? = some .broken ∨
    x.futures[t.id]? = some .pending ∧ ∃ i, x.task i = some t
  waits : ¬ x.pool.Settled t → x.futures[t.id]? = some .pending

/-- The invariant. -/
structure Inv (func : ℕ → Except E R) (x : Promised R E) : Prop where
  reach : Reach x.pool
  length : x.futures.length = x.pool.pushed.length
  /-- A task that is in a variable is held by this thread, or settled. -/
  task : ∀ i t, x.task i = some t → ∃ p, x.pool.threads[i]? = some p ∧ p.hasTask = true ∧
    (p.held = some t ∨ x.pool.Settled t)
  holds : ∀ i t, x.pool.Holds i t → x.task i = some t
  kept : ∀ t ∈ x.pool.pushed, Kept func x t

lemma inv_start (n : ℕ) : Inv func (start R E n) := by
  refine ⟨.of_init ⟨n, rfl⟩, rfl, nofun, fun i t h => ?_, fun t ht => by cases ht⟩
  obtain ⟨p, hp, hheld⟩ := h
  obtain ⟨-, rfl⟩ := List.mem_replicate.1 (List.mem_of_getElem? hp)
  cases hheld

/-- A task whose fate does not change keeps what its future has. -/
lemma Kept.congr (h : Kept func x t)
    (hsettled : ∀ f, (t, f) ∈ y.pool.settled ↔ (t, f) ∈ x.pool.settled)
    (htask : ∀ i, x.task i = some t → y.task i = some t)
    (hfutures : y.futures[t.id]? = x.futures[t.id]?) : Kept func y t := by
  refine ⟨fun threw hran => ?_, fun hexp => ?_, fun hns => ?_⟩
  · rw [hfutures]
    exact h.ran threw ((hsettled _).1 hran)
  · rw [hfutures]
    rcases h.expired ((hsettled _).1 hexp) with hb | ⟨hp, i, hi⟩
    · exact .inl hb
    · exact .inr ⟨hp, i, htask i hi⟩
  · rw [hfutures]
    exact h.waits fun ⟨f, hf⟩ => hns ⟨f, (hsettled f).2 hf⟩

/-- When a task is settled, the fates of the others stay. -/
lemma mem_settled_append {u : TaskFunc} {f g : Fate} {settled : List (TaskFunc × Fate)}
    (hne : t ≠ u) : (t, f) ∈ settled ++ [(u, g)] ↔ (t, f) ∈ settled := by
  rw [List.mem_append, List.mem_singleton, Prod.mk.injEq]
  exact or_iff_left fun h => hne h.1

/-- What the threads have, after a step of the pool that is not the end of a round. -/
lemma Inv.task_of_step (hx : Inv func x) {s : State} (hst : ThreadPool.Step i x.pool s)
    (hself : ∀ u, x.task i = some u → ∃ q, s.threads[i]? = some q ∧ q.hasTask = true ∧
      (q.held = some u ∨ s.Settled u)) (j : ℕ) (u : TaskFunc) (hj : x.task j = some u) :
    ∃ q, s.threads[j]? = some q ∧ q.hasTask = true ∧ (q.held = some u ∨ s.Settled u) := by
  by_cases hij : i = j
  · subst hij
    exact hself u hj
  · obtain ⟨p, hp, htask, hheld⟩ := hx.task j u hj
    refine ⟨p, hst.hasTask_of_other hij hp htask, htask, hheld.imp_right ?_⟩
    rintro ⟨f, hf⟩
    exact ⟨f, hst.logStep.prefix_log.2.mem hf⟩

lemma Inv.push {e : ℤ} {s : State} (hx : Inv func x)
    (h : x.pool.threads[i]? = some (.execBody e)) (hst : ThreadPool.Step i x.pool s) :
    Inv func { x with pool := s, futures := x.futures ++ [.pending] } := by
  have hreach : Reach s := hx.reach.tail ⟨i, hst⟩
  obtain ⟨hpushed, -⟩ := hst.push_of_execBody h
  have hempty : ∀ u, x.task i ≠ some u := by
    intro u hu
    obtain ⟨p, hp, htask, -⟩ := hx.task i u hu
    obtain rfl := Option.some.inj (h.symm.trans hp)
    cases htask
  have hsettled : s.settled = x.pool.settled := by
    cases hst.logStep with
    | quiet hf _ _ | push _ hf _ _ => exact hf.settled
    | act h' _ _ ha =>
      obtain rfl := Option.some.inj (h.symm.trans h')
      cases ha
  refine ⟨hreach, ?_, hx.task_of_step hst fun u hu => absurd hu (hempty u), fun j u hj => ?_,
    fun u hu => ?_⟩
  · dsimp only
    rw [hpushed, List.length_append, List.length_append, hx.length]
    rfl
  · by_cases hij : i = j
    · subst hij
      obtain ⟨q, hq, hheld⟩ := hj
      cases hst with
      | push h' hn =>
        obtain rfl := eq_of_getElem?_set hq
        cases hheld
      | lock h' hl =>
        obtain rfl := Option.some.inj (h.symm.trans h')
        cases hl
      | wake h' hl =>
        obtain rfl := Option.some.inj (h.symm.trans h')
        cases hl
      | call _ h' | finish _ h' => cases Option.some.inj (h.symm.trans h')
      | _ h' => cases Option.some.inj (h.symm.trans h')
    · exact hx.holds j u (hst.of_holds_other hij hj)
  · rw [hpushed] at hu
    by_cases hold : u ∈ x.pool.pushed
    · have hlt : u.id < x.futures.length := by
        rw [hx.length]
        exact hx.reach.id_lt hold
      exact (hx.kept u hold).congr (fun f => by rw [hsettled]) (fun _ hj => hj)
        (List.getElem?_append_left hlt)
    · -- the new task
      have hnew : ∀ f, (u, f) ∉ s.settled := by
        intro f hf
        rw [hsettled] at hf
        exact hold (hx.reach.mem_pushed_of_settled ⟨f, hf⟩)
      have hid : u.id = x.futures.length := by
        rcases List.mem_append.1 hu with hu | hu
        · exact absurd hu hold
        · rw [List.mem_singleton.1 hu, hx.length]
      refine ⟨fun threw hr => absurd hr (hnew _), fun he => absurd he (hnew _), fun _ => ?_⟩
      rw [hid]
      exact List.getElem?_concat_length

lemma Inv.get {r : Bool} {s : State} (hx : Inv func x)
    (h : x.pool.threads[i]? = some (.getBody r)) (hg : x.pool.get r = .ret (some t))
    (hst : ThreadPool.Step i x.pool s) :
    Inv func { x with pool := s, task := Function.update x.task i (some t) } := by
  have hempty : ∀ u, x.task i ≠ some u := by
    intro u hu
    obtain ⟨p, hp, htask, -⟩ := hx.task i u hu
    obtain rfl := Option.some.inj (h.symm.trans hp)
    cases htask
  have hafter : s.threads[i]? = some (.incRunning t) ∧ s.pushed = x.pool.pushed ∧
      s.settled = x.pool.settled := by
    have hset : (x.pool.threads.set i (.incRunning t))[i]? = some (.incRunning t) :=
      getElem?_set_self_of_getElem? h _
    cases hst with
    | getTrue h' hg' =>
      obtain rfl : r = _ := Pc.getBody.inj (Option.some.inj (h.symm.trans h'))
      obtain rfl : t = _ := Option.some.inj (GetResult.ret.inj (hg.symm.trans hg'))
      exact ⟨hset, rfl, rfl⟩
    | getBlock h' hg' | getFalse h' hg' =>
      obtain rfl : r = _ := Pc.getBody.inj (Option.some.inj (h.symm.trans h'))
      cases hg.symm.trans hg'
    | lock h' hl | wake h' hl =>
      obtain rfl := Option.some.inj (h.symm.trans h')
      cases hl
    | call _ h' | finish _ h' => cases Option.some.inj (h.symm.trans h')
    | _ h' => cases Option.some.inj (h.symm.trans h')
  obtain ⟨hthread, hpushed, hsettled⟩ := hafter
  refine ⟨hx.reach.tail ⟨i, hst⟩, ?_, fun j u hj => ?_, fun j u hj => ?_, fun u hu => ?_⟩
  · rw [hx.length, hpushed]
  · dsimp only at hj
    by_cases hij : j = i
    · subst hij
      rw [Function.update_self] at hj
      exact ⟨_, hthread, rfl, .inl hj⟩
    · rw [Function.update_of_ne hij] at hj
      exact hx.task_of_step hst (fun u hu => absurd hu (hempty u)) j u hj
  · by_cases hij : j = i
    · subst hij
      obtain ⟨q, hq, hheld⟩ := hj
      obtain rfl := Option.some.inj (hthread.symm.trans hq)
      show Function.update x.task j (some t) j = some u
      rw [Function.update_self]
      exact hheld
    · show Function.update x.task i (some t) j = some u
      rw [Function.update_of_ne hij]
      exact hx.holds j u (hst.of_holds_other (Ne.symm hij) hj)
  · rw [hpushed] at hu
    refine (hx.kept u hu).congr (fun f => by rw [hsettled]) (fun j hj => ?_) rfl
    have hij : j ≠ i := fun heq => hempty u (heq ▸ hj)
    exact (Function.update_of_ne hij _ _).trans hj

lemma Inv.call (hx : Inv func x) (h : x.pool.threads[i]? = some (.body t)) :
    Inv func { x with
      pool := { x.pool.goto i .decRunning with settled := x.pool.settled ++ [(t, .ran false)] }
      futures := x.futures.modify t.id fun _ => .call (func t.id) } := by
  have hst : ThreadPool.Step i x.pool _ := .finish false h
  have hreach : Reach _ := hx.reach.tail ⟨i, hst⟩
  have hmem : t ∈ x.pool.pushed := hx.reach.mem_pushed_of_holds ⟨_, h, rfl⟩
  have hown : x.task i = some t := hx.holds i t ⟨_, h, rfl⟩
  have hthread : (x.pool.threads.set i .decRunning)[i]? = some .decRunning :=
    getElem?_set_self_of_getElem? h _
  have hran : (t, Fate.ran false) ∈ x.pool.settled ++ [(t, .ran false)] :=
    List.mem_append_right _ (List.mem_singleton_self _)
  refine ⟨hreach, ?_, hx.task_of_step hst fun u hu => ?_, fun j u hj => ?_, fun u hu => ?_⟩
  · rw [List.length_modify]
    exact hx.length
  · obtain rfl : t = u := Option.some.inj (hown.symm.trans hu)
    exact ⟨_, hthread, rfl, .inr ⟨_, hran⟩⟩
  · by_cases hij : i = j
    · subst hij
      obtain ⟨q, hq, hheld⟩ := hj
      obtain rfl := Option.some.inj (hthread.symm.trans hq)
      cases hheld
    · exact hx.holds j u (hst.of_holds_other hij hj)
  · by_cases hu' : u = t
    · subst hu'
      have hlt : u.id < x.futures.length := by
        rw [hx.length]
        exact hx.reach.id_lt hmem
      refine ⟨fun _ _ => ?_, fun hexp => absurd hexp (hreach.not_ran_and_expired hran),
        fun hns => absurd ⟨_, hran⟩ hns⟩
      rw [List.getElem?_modify_eq, List.getElem?_eq_getElem hlt]
      rfl
    · refine (hx.kept u hu).congr (fun f => mem_settled_append hu') (fun _ hj => hj) ?_
      exact List.getElem?_modify_ne _ _ fun hid => hu' (hx.reach.eq_of_id_eq hu hmem hid.symm)

lemma Inv.destroy (hx : Inv func x) (h : x.pool.threads[i]? = some .loopTest)
    (ht : x.task i = some t) :
    Inv func { x with
      task := Function.update x.task i none
      futures := x.futures.modify t.id SharedState.abandon } := by
  obtain ⟨p, hp, -, hheld⟩ := hx.task i t ht
  obtain rfl := Option.some.inj (h.symm.trans hp)
  have hsettled : x.pool.Settled t := hheld.resolve_left (by nofun)
  have hmem := hx.reach.mem_pushed_of_settled hsettled
  refine ⟨hx.reach, ?_, fun j u hj => ?_, fun j u hj => ?_, fun u hu => ?_⟩
  · rw [List.length_modify]
    exact hx.length
  · dsimp only at hj
    by_cases hij : j = i
    · subst hij
      rw [Function.update_self] at hj
      cases hj
    · rw [Function.update_of_ne hij] at hj
      exact hx.task j u hj
  · have hij : j ≠ i := by
      rintro rfl
      obtain ⟨q, hq, hheld⟩ := hj
      obtain rfl := Option.some.inj (h.symm.trans hq)
      cases hheld
    exact (Function.update_of_ne hij _ _).trans (hx.holds j u hj)
  · by_cases hu' : u = t
    · subst hu'
      obtain ⟨hran, hexp, -⟩ := hx.kept u hu
      refine ⟨fun threw hr => ?_, fun he => .inl ?_, fun hns => absurd hsettled hns⟩
      · rw [List.getElem?_modify_eq, hran threw hr]
        exact congrArg some (SharedState.abandon_call _)
      · rcases hexp he with hf | ⟨hf, -⟩ <;> rw [List.getElem?_modify_eq, hf] <;> rfl
    · refine (hx.kept u hu).congr (fun _ => Iff.rfl) (fun j hj => ?_) ?_
      · have hij : j ≠ i := by
          rintro rfl
          exact hu' (Option.some.inj (hj.symm.trans ht))
        exact (Function.update_of_ne hij _ _).trans hj
      · exact List.getElem?_modify_ne _ _ fun hid => hu' (hx.reach.eq_of_id_eq hu hmem hid.symm)

lemma Inv.other {p : Pc} {s : State} (hx : Inv func x) (h : x.pool.threads[i]? = some p)
    (hexec : ∀ e, p ≠ .execBody e) (hbody : ∀ t, p ≠ .body t)
    (hget : ∀ r t, p = .getBody r → x.pool.get r ≠ .ret (some t))
    (hloop : p = .loopTest → x.task i = none) (hst : ThreadPool.Step i x.pool s) :
    Inv func { x with pool := s } := by
  have hreach : Reach s := hx.reach.tail ⟨i, hst⟩
  obtain ⟨hpushed, hcases⟩ := hst.plain h hexec hbody hget
  rcases hcases with ⟨hsettled, q, hq, hheld, hround⟩ | ⟨u, rfl, hsettled, hq⟩
  · refine ⟨hreach, ?_, hx.task_of_step hst fun u hu => ?_, fun j u hj => ?_, fun u hu => ?_⟩
    · rw [hpushed]
      exact hx.length
    · obtain ⟨p', hp', htask, hown⟩ := hx.task i u hu
      obtain rfl := Option.some.inj (h.symm.trans hp')
      have hne : p ≠ .loopTest := by
        intro heq
        rw [hloop heq] at hu
        cases hu
      refine ⟨q, hq, hround htask hne, ?_⟩
      rw [hheld, State.Settled, hsettled]
      exact hown
    · by_cases hij : i = j
      · subst hij
        obtain ⟨q', hq', hheld'⟩ := hj
        obtain rfl := Option.some.inj (hq.symm.trans hq')
        exact hx.holds i u ⟨p, h, hheld.symm.trans hheld'⟩
      · exact hx.holds j u (hst.of_holds_other hij hj)
    · rw [hpushed] at hu
      exact (hx.kept u hu).congr (fun f => by rw [hsettled]) (fun _ hj => hj) rfl
  · -- the task has expired
    have hown : x.task i = some u := hx.holds i u ⟨_, h, rfl⟩
    have hexp : (u, Fate.expired) ∈ s.settled := by
      rw [hsettled]
      exact List.mem_append_right _ (List.mem_singleton_self _)
    refine ⟨hreach, ?_, hx.task_of_step hst fun v hv => ?_, fun j v hj => ?_, fun v hv => ?_⟩
    · rw [hpushed]
      exact hx.length
    · obtain rfl : u = v := Option.some.inj (hown.symm.trans hv)
      exact ⟨_, hq, rfl, .inr ⟨_, hexp⟩⟩
    · by_cases hij : i = j
      · subst hij
        obtain ⟨q, hq', hheld⟩ := hj
        obtain rfl := Option.some.inj (hq.symm.trans hq')
        cases hheld
      · exact hx.holds j v (hst.of_holds_other hij hj)
    · rw [hpushed] at hv
      by_cases hvu : v = u
      · subst hvu
        have hwaits : ¬ x.pool.Settled v := fun hs =>
          hx.reach.not_holds_of_settled hv hs i ⟨_, h, rfl⟩
        refine ⟨fun threw hran => absurd hexp (hreach.not_ran_and_expired hran),
          fun _ => .inr ⟨(hx.kept v hv).waits hwaits, i, hown⟩, fun hns => absurd ⟨_, hexp⟩ hns⟩
      · refine (hx.kept v hv).congr (fun f => ?_) (fun _ hj => hj) rfl
        rw [hsettled]
        exact mem_settled_append hvu

lemma inv_step (hx : Inv func x) (h : Step func x y) : Inv func y := by
  cases h with
  | push h hst => exact hx.push h hst
  | get h hg hst => exact hx.get h hg hst
  | call h => exact hx.call h
  | destroy h ht => exact hx.destroy h ht
  | other h hexec hbody hget hloop hst => exact hx.other h hexec hbody hget hloop hst

/-- The states of a pool with `n` clients. -/
def Reach (func : ℕ → Except E R) (n : ℕ) (x : Promised R E) : Prop :=
  Reachable (· = start R E n) (Step func) x

variable {n : ℕ}

lemma Reach.inv (h : Reach func n x) : Inv func x := by
  refine h.invariant (I := Inv func) ?_ fun _ _ _ hx hst => inv_step hx hst
  rintro x rfl
  exact inv_start n

/-- Where the pool rests, no round is going on. -/
lemma Inv.task_eq_none (hx : Inv func x) (hrest : Resting x.pool) (i : ℕ) : x.task i = none := by
  cases hi : x.task i with
  | none => rfl
  | some t =>
    obtain ⟨p, hp, htask, -⟩ := hx.task i t hi
    rcases hrest.rests hx.reach.mutex_owned hp with rfl | rfl | ⟨q, hq⟩ | ⟨w, rest, rfl⟩
    · cases htask
    · cases htask
    · rw [woken_of_hasTask htask] at hq
      cases hq
    · cases htask

/-- Where no round is going on, a task that is settled has its result. -/
lemma Inv.future_of_settled (hx : Inv func x) (hnone : ∀ i, x.task i = none)
    (ht : x.pool.Settled t) :
    x.futures[t.id]? = some (.call (func t.id)) ∨
      t.expireTime ≠ 0 ∧ x.futures[t.id]? = some .broken := by
  obtain ⟨hran, hexp, -⟩ := hx.kept t (hx.reach.mem_pushed_of_settled ht)
  obtain ⟨f, hf⟩ := ht
  cases f with
  | ran threw => exact .inl (hran threw hf)
  | expired =>
    refine .inr ⟨hx.reach.expireTime_ne_zero t hf, ?_⟩
    rcases hexp hf with hb | ⟨-, i, hi⟩
    · exact hb
    · rw [hnone i] at hi
      cases hi

/-- **Every caller of `exec` can have its result.**  Where a pool rests that has a worker and was
not stopped, the future of every task has what its function returned or threw; or the task had a
time limit, and the promise is broken. -/
theorem results_at_rest (h : Reach func n x) (hrest : Resting x.pool)
    (hworkers : x.pool.workers ≠ []) (hterm : x.pool.terminate = false)
    (ht : t ∈ x.pool.pushed) :
    x.futures[t.id]? = some (.call (func t.id)) ∨
      t.expireTime ≠ 0 ∧ x.futures[t.id]? = some .broken :=
  h.inv.future_of_settled (h.inv.task_eq_none hrest)
    ((hrest.drained h.inv.reach hworkers hterm).settled t ht)

lemma getElem?_destructor (x : Promised R E) (k : ℕ) : x.destructor[k]? =
    x.futures[k]?.map fun f => if k ∈ x.pool.tasks.map TaskFunc.id then f.abandon else f :=
  List.getElem?_mapIdx

/-- **Nobody waits for a pool that is gone.**  When all threads are outside of the pool and it is
destroyed, the future of every task that was run has its result, and all others have a broken
promise. -/
theorem futures_after_destructor (h : Reach func n x)
    (hout : ∀ p ∈ x.pool.threads, p = .idle ∨ p = .exited) (ht : t ∈ x.pool.pushed) :
    x.destructor[t.id]? = some (if t ∈ x.pool.started then .call (func t.id) else .broken) := by
  have hx := h.inv
  have hnone : ∀ i, x.task i = none := by
    intro i
    cases hi : x.task i with
    | none => rfl
    | some u =>
      obtain ⟨p, hp, htask, -⟩ := hx.task i u hi
      rcases hout p (List.mem_of_getElem? hp) with rfl | rfl <;> cases htask
  have hheld : x.pool.held = [] := by
    rw [State.held, List.filterMap_eq_nil_iff]
    intro p hp
    rcases hout p hp with rfl | rfl <;> rfl
  have hrunning : x.pool.running = [] := by
    rw [State.running, List.filterMap_eq_nil_iff]
    intro p hp
    rcases hout p hp with rfl | rfl <;> rfl
  have hone := hx.reach.one_place ht
  have hstarted := hx.reach.count_started t
  rw [hheld, List.count_nil] at hone
  rw [hrunning, List.count_nil, zero_add] at hstarted
  have hids : t.id ∈ x.pool.tasks.map TaskFunc.id ↔ t ∈ x.pool.tasks := by
    refine ⟨fun hmem => ?_, List.mem_map_of_mem⟩
    obtain ⟨u, hu, hid⟩ := List.mem_map.1 hmem
    have hfifo : x.pool.pushed = x.pool.taken ++ x.pool.tasks := hx.reach.accounted.fifo
    have hu' : u ∈ x.pool.pushed := hfifo ▸ List.mem_append_right _ hu
    exact hx.reach.eq_of_id_eq hu' ht hid ▸ hu
  rw [getElem?_destructor]
  by_cases hqueue : t ∈ x.pool.tasks
  · -- it was never taken
    have hnot : t ∉ x.pool.started := by
      rw [← List.count_eq_zero]
      have := List.count_pos_iff.2 hqueue
      omega
    rw [(hx.kept t ht).waits (hx.reach.not_settled_of_mem hqueue), Option.map_some,
      if_pos (hids.2 hqueue), if_neg hnot]
    rfl
  · rw [List.count_eq_zero.2 hqueue] at hone
    have hsettled : x.pool.Settled t := settled_iff.2 (by omega)
    simp only [if_neg (mt hids.1 hqueue), Option.map_id']
    obtain ⟨hran, hexp, -⟩ := hx.kept t ht
    by_cases hmem : t ∈ x.pool.started
    · have hcount := List.count_pos_iff.2 hmem
      rw [hstarted] at hcount
      obtain ⟨⟨u, f⟩, hf, rfl⟩ := List.mem_map.1 (List.count_pos_iff.1 hcount)
      obtain ⟨hf, hrun⟩ := List.mem_filter.1 hf
      cases f with
      | expired => cases hrun
      | ran threw => rw [if_pos hmem, hran threw hf]
    · rw [if_neg hmem]
      have hdropped : (t, .expired) ∈ x.pool.settled := by
        rw [← List.count_pos_iff]
        have := List.count_eq_zero.2 hmem
        rw [State.droppedTimes] at hone
        omega
      rcases hexp hdropped with hb | ⟨-, i, hi⟩
      · exact hb
      · rw [hnone i] at hi
        cases hi

/-- A step of thread `i` from the point `p`, which neither submits nor takes nor runs a task. -/
lemma Reach.other (h : Reach func n x) (i : ℕ) (p : Pc) {s : State}
    (hst : ThreadPool.Step i x.pool s) (hp : x.pool.threads[i]? = some p)
    (hexec : ∀ e, p ≠ .execBody e) (hbody : ∀ t, p ≠ .body t) (hget : ∀ r, p ≠ .getBody r)
    (hloop : p = .loopTest → x.task i = none) : Reach func n { x with pool := s } :=
  h.tail (.other hp hexec hbody (fun r _ hr => absurd hr (hget r)) hloop hst)

/-- A client has started a pool with one worker and called `exec`; the worker has run the task and
is blocked. -/
lemma sample_run : ∃ x : Promised ℕ Unit, Reach (fun id => .ok (id + 5)) 1 x ∧
    x.pool.threads = [.idle, .getBlocked] ∧ x.pool.workers = [1] ∧ x.pool.terminate = false ∧
    x.pool.pushed = [⟨0, 0⟩] := by
  have h : Reach (fun id => .ok (id + 5)) 1 (start ℕ Unit 1) := .of_init rfl
  have h := h.other 0 .idle (.call .start rfl) rfl nofun nofun nofun nofun
  have h := h.other 0 .startLock (.lock rfl rfl rfl) rfl nofun nofun nofun nofun
  have h := h.other 0 .startBody (.startSpawn rfl rfl) rfl nofun nofun nofun nofun
  have h := h.other 0 .idle (.call (.exec 0) rfl) rfl nofun nofun nofun nofun
  have h := h.other 0 (.execLock 0) (.lock rfl rfl rfl) rfl nofun nofun nofun nofun
  have h : Reach _ _ _ := h.tail (.push (i := 0) rfl (.push rfl (Or.inr ⟨by decide, rfl⟩)))
  -- the worker takes the task and runs it
  have h := h.other 1 .loopTest (.loopEnter rfl rfl) rfl nofun nofun nofun fun _ => rfl
  have h := h.other 1 .getLock (.lock rfl rfl rfl) rfl nofun nofun nofun nofun
  have h : Reach _ _ _ := h.tail (.get (i := 1) rfl rfl (.getTrue rfl rfl))
  have h := h.other 1 (.incRunning ⟨0, 0⟩) (.inc rfl) rfl nofun nofun nofun nofun
  have h := h.other 1 (.expiryTest ⟨0, 0⟩) (@ThreadPool.Step.begin 1 _ ⟨0, 0⟩ 0 rfl rfl) rfl nofun
    nofun nofun nofun
  have h : Reach _ _ _ := h.tail (.call (i := 1) rfl)
  have h := h.other 1 .decRunning (.dec rfl) rfl nofun nofun nofun nofun
  have h := h.other 1 .endLock (.lock rfl rfl rfl) rfl nofun nofun nofun nofun
  have h := h.other 1 .endBody (.endNotify rfl ⟨rfl, rfl⟩) rfl nofun nofun nofun nofun
  have h : Reach _ _ _ := h.tail (.destroy (i := 1) rfl rfl)
  -- there is nothing more to do
  have h := h.other 1 .loopTest (.loopEnter rfl rfl) rfl nofun nofun nofun fun _ => rfl
  have h := h.other 1 .getLock (.lock rfl rfl rfl) rfl nofun nofun nofun nofun
  have h : Reach _ _ _ := h.tail (.other (i := 1) (p := .getBody false) rfl nofun nofun
    (fun r t hr hg => by cases hr; cases hg) nofun (.getBlock rfl rfl))
  exact ⟨_, h, rfl, rfl, rfl, rfl⟩

theorem results_at_rest_sample : ∃ x : Promised ℕ Unit, x.futures[0]? = some (.value 5) := by
  obtain ⟨x, h, hthreads, hworkers, hterm, hpushed⟩ := sample_run
  have hrest : Resting x.pool := resting_of_quiet (by simp [hthreads, Pc.woken])
  have hmem : ⟨0, 0⟩ ∈ x.pool.pushed := by simp [hpushed]
  rcases results_at_rest h hrest (by simp [hworkers]) hterm hmem with hf | ⟨hne, -⟩
  · exact ⟨x, hf⟩
  · exact absurd rfl hne

/-- The pool was never started, and its only task is destroyed with it. -/
theorem futures_after_destructor_sample : ∃ x : Promised ℕ Unit,
    x.destructor[0]? = some .broken := by
  have h : Reach (fun id => .ok (id + 5)) 1 (start ℕ Unit 1) := .of_init rfl
  have h := h.other 0 .idle (.call (.exec 0) rfl) rfl nofun nofun nofun nofun
  have h := h.other 0 (.execLock 0) (.lock rfl rfl rfl) rfl nofun nofun nofun nofun
  have h : Reach _ _ _ := h.tail (.push (i := 0) rfl (.push rfl (Or.inr ⟨by decide, rfl⟩)))
  -- `stop`
  have h := h.other 0 .idle (.call .stop rfl) rfl nofun nofun nofun nofun
  have h := h.other 0 .stopLock (.lock rfl rfl rfl) rfl nofun nofun nofun nofun
  have h := h.other 0 .stopBody (.stopSet rfl) rfl nofun nofun nofun nofun
  have h := h.other 0 .stopScan (.stopBegin rfl) rfl nofun nofun nofun nofun
  have h := h.other 0 (.stopJoinable []) (.stopLoopEnd rfl) rfl nofun nofun nofun nofun
  have h := h.other 0 .stopLock2 (.lock rfl rfl rfl) rfl nofun nofun nofun nofun
  have h := h.other 0 .stopClear (.stopCleared rfl) rfl nofun nofun nofun nofun
  exact ⟨_, futures_after_destructor h (t := ⟨0, 0⟩) (fun p hp => .inl (List.mem_singleton.1 hp))
    (List.mem_singleton_self _)⟩

end Promised

end CppExample.ThreadPool
