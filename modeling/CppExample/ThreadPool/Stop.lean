/-
# Stopping the pool

`stop` sets `_terminate` and clears `_workers` with the mutex, but the loop in between, which
joins and deletes the `std::thread` objects, runs without it.  A thread in this loop, or
between its end and the clear, is called sweeping.  As long as no second `stop` begins its
loop over the same objects and no `start` creates new ones while a thread is sweeping, every
object is joined at most once and deleted once, and nobody touches it after that.

With this, `stop` leaves a quiet pool behind: the workers have left `run`, and since
`_terminate` is never reset, no task is ever taken again.
-/
import CppExample.ThreadPool.Wakeup

namespace CppExample.ThreadPool
open Lib Relation

namespace Pc

/-- The points of `stop` from the beginning of the loop over `_workers` to the clear, with
the objects that are still to be deleted there and those that are still to be joined. -/
def sweep : Pc → Option (List ℕ × List ℕ)
  | stopJoinable rest => some (rest, rest)
  | stopJoin w rest => some (w :: rest, w :: rest)
  | stopDelete w rest => some (w :: rest, rest)
  | stopLock2 | stopClear => some ([], [])
  | _ => none

/-- The points of `stop`. -/
def inStop : Pc → Bool
  | stopLock | stopBody | stopScan | stopJoinable _ | stopJoin _ _ | stopDelete _ _ | stopLock2
  | stopClear => true
  | _ => false

/-- The points of `start`. -/
def inStart : Pc → Bool
  | startLock | startBody => true
  | _ => false

end Pc

namespace State

/-- The workers that were ever created, in this order. -/
def created (s : State) : List ℕ :=
  (List.range s.threads.length).filter fun i => (s.threads.map Pc.isWorker)[i]? = some true

/-- What the sweeping threads still have to do. -/
def sweeps (s : State) : List (List ℕ × List ℕ) := s.threads.filterMap Pc.sweep

end State

/-- The step of thread `i` is not the beginning of the loop of `stop` over some workers, nor
the creation of workers, or nobody is sweeping. -/
def Apart (i : ℕ) (s : State) : Prop :=
  (s.threads[i]? = some .stopScan → s.workers ≠ [] → s.sweeps = []) ∧
    (s.threads[i]? = some .startBody → s.workers = [] → s.newWorkers ≠ [] → s.sweeps = [])

/-- The steps of the pool that meet the condition. -/
def ApartNext (s t : State) : Prop := ∃ i, Step i s t ∧ Apart i s

/-- While a thread is in `stop`, no other thread is in `stop` or `start`. -/
def Orderly (s : State) : Prop :=
  ∀ (i j : ℕ) (p q : Pc), i ≠ j → s.threads[i]? = some p → s.threads[j]? = some q →
    p.inStop = true → q.inStop = false ∧ q.inStart = false

/-- The steps of a pool that is started and stopped in an orderly way. -/
def OrderlyNext (s t : State) : Prop := Orderly s ∧ Next s t

/-! ## The threads that were created -/

lemma sweep_of_woken {p q : Pc} (h : p.woken = some q) : q.sweep = p.sweep := by
  cases p <;> cases h <;> rfl

lemma sweep_of_afterLock {p q : Pc} (h : p.afterLock = some q) : q.sweep = p.sweep := by
  cases p <;> cases h <;> rfl

lemma created_nodup (s : State) : s.created.Nodup := List.nodup_range.filter _

lemma mem_created {s : State} {i : ℕ} {p : Pc} (h : s.threads[i]? = some p)
    (hp : p.isWorker = true) : i ∈ s.created := by
  rw [State.created, List.mem_filter, List.mem_range, List.getElem?_map, h, Option.map_some, hp]
  exact ⟨(List.getElem?_eq_some_iff.1 h).1, rfl⟩

lemma created_congr {s t : State} (h : t.threads.map Pc.isWorker = s.threads.map Pc.isWorker) :
    t.created = s.created := by
  have hlen : t.threads.length = s.threads.length := by
    rw [← List.length_map Pc.isWorker, h, List.length_map]
  rw [State.created, State.created, h, hlen]

/-- `start` appends the workers that it creates. -/
lemma created_startSpawn {s t : State} {i : ℕ} (h : s.threads[i]? = some .startBody)
    (hthreads : t.threads = s.threads.set i .idle ++ List.replicate s.poolSize .loopTest) :
    t.created = s.created ++ s.newWorkers := by
  have hlen : t.threads.length = s.threads.length + s.poolSize := by
    rw [hthreads, List.length_append, List.length_set, List.length_replicate]
  have hmap : t.threads.map Pc.isWorker
      = s.threads.map Pc.isWorker ++ List.replicate s.poolSize true := by
    rw [hthreads, List.map_append, map_set_of_eq h (by rfl), List.map_replicate]
    rfl
  rw [State.created, hlen, List.range_add, List.filter_append, hmap]
  congr 1
  · refine List.filter_congr fun j hj => ?_
    rw [List.getElem?_append_left (by rw [List.length_map]; exact List.mem_range.1 hj)]
  · rw [State.newWorkers, List.filter_eq_self]
    intro j hj
    obtain ⟨k, hk, rfl⟩ := List.mem_map.1 hj
    rw [List.getElem?_append_right (by rw [List.length_map]; omega), List.length_map,
      Nat.add_sub_cancel_left, List.getElem?_replicate, if_pos (List.mem_range.1 hk)]
    rfl

/-! ## Sweeping -/

/-- The `std::thread` objects are in order; `undeleted` and `unjoined` are those that are
still to be deleted and to be joined. -/
structure Tidy (s : State) (undeleted unjoined : List ℕ) : Prop where
  deleted : s.created = s.deleted ++ undeleted
  joined : s.created = s.joined ++ unjoined
  /-- The sweeping threads know what is left to do. -/
  sweeps : ∀ x ∈ s.sweeps, x = (undeleted, unjoined)
  /-- When nobody is sweeping, these are the objects in the vector. -/
  at_rest : s.sweeps = [] → undeleted = s.workers ∧ unjoined = s.workers
  no_workers : s.workers = [] → undeleted = [] ∧ unjoined = []
  /-- Only one thread is sweeping when there are workers. -/
  one_sweep : s.workers ≠ [] → s.sweeps.length ≤ 1
  workers : s.workers <:+ s.created
  untouched : s.touchedDeleted = false

/-- A step that leaves the objects, the vector and the sweeping threads alone. -/
lemma Tidy.of_quiet {s t : State} {ud uj : List ℕ} (hs : Tidy s ud uj)
    (hmap : t.threads.map Pc.isWorker = s.threads.map Pc.isWorker) (hsweeps : t.sweeps = s.sweeps)
    (hworkers : t.workers = s.workers) (hjoined : t.joined = s.joined)
    (hdeleted : t.deleted = s.deleted) (htouched : t.touchedDeleted = s.touchedDeleted) :
    Tidy t ud uj := by
  have hcreated := created_congr hmap
  exact {
    deleted := by rw [hcreated, hdeleted, hs.deleted]
    joined := by rw [hcreated, hjoined, hs.joined]
    sweeps := by rw [hsweeps]; exact hs.sweeps
    at_rest := by rw [hsweeps, hworkers]; exact hs.at_rest
    no_workers := by rw [hworkers]; exact hs.no_workers
    one_sweep := by rw [hsweeps, hworkers]; exact hs.one_sweep
    workers := by rw [hcreated, hworkers]; exact hs.workers
    untouched := htouched.trans hs.untouched }

/-- The same for a move of one thread. -/
lemma Tidy.of_move {s t : State} {ud uj : List ℕ} (hs : Tidy s ud uj) {i : ℕ} {p q : Pc}
    (h : s.threads[i]? = some p) (hthreads : t.threads = s.threads.set i q)
    (hworker : q.isWorker = p.isWorker) (hsweep : q.sweep = p.sweep)
    (hworkers : t.workers = s.workers) (hjoined : t.joined = s.joined)
    (hdeleted : t.deleted = s.deleted) (htouched : t.touchedDeleted = s.touchedDeleted) :
    Tidy t ud uj := by
  refine hs.of_quiet ?_ ?_ hworkers hjoined hdeleted htouched
  · rw [hthreads, map_set_of_eq h hworker]
  · rw [State.sweeps, hthreads, filterMap_set_of_eq h hsweep, State.sweeps]

lemma mem_sweeps {s : State} {i : ℕ} {p : Pc} (h : s.threads[i]? = some p)
    {x : List ℕ × List ℕ} (hp : p.sweep = some x) : x ∈ s.sweeps :=
  List.mem_filterMap.2 ⟨p, List.mem_of_getElem? h, hp⟩

/-- A thread that sweeps and has something left to delete is the only one. -/
lemma Tidy.sweeps_eq {s : State} {ud uj : List ℕ} (hs : Tidy s ud uj) {x : List ℕ × List ℕ}
    (hx : x ∈ s.sweeps) (hne : ud ≠ []) : s.sweeps = [(ud, uj)] := by
  have hworkers : s.workers ≠ [] := fun h0 => hne (hs.no_workers h0).1
  obtain ⟨y, hy⟩ := List.length_eq_one_iff.1
    (le_antisymm (hs.one_sweep hworkers) (List.length_pos_of_mem hx))
  rw [hy, hs.sweeps y (by rw [hy]; exact List.mem_singleton_self y)]

/-- The thread that sweeps moves on. -/
lemma Tidy.advance {s t : State} {ud uj : List ℕ} (hs : Tidy s ud uj) (hne : ud ≠ []) {i : ℕ}
    {p q : Pc} (h : s.threads[i]? = some p) (hp : p.sweep = some (ud, uj))
    (hthreads : t.threads = s.threads.set i q) {ud' uj' : List ℕ} (hq : q.sweep = some (ud', uj')) :
    t.sweeps = [(ud', uj')] := by
  have hadd : (t.sweeps : Multiset (List ℕ × List ℕ)) + {(ud, uj)}
      = (s.sweeps : Multiset (List ℕ × List ℕ)) + {(ud', uj')} := by
    have hset := filterMap_set_add (f := Pc.sweep) h q
    rw [hp, hq, ← hthreads] at hset
    exact hset
  rw [hs.sweeps_eq (mem_sweeps h hp) hne, Multiset.coe_singleton,
    add_comm {(ud, uj)} {(ud', uj')}] at hadd
  exact Multiset.coe_eq_singleton.1 (add_right_cancel hadd)

lemma Tidy.eq_of_sweep {s : State} {ud uj : List ℕ} (hs : Tidy s ud uj) {i : ℕ} {p : Pc}
    (h : s.threads[i]? = some p) {x : List ℕ × List ℕ} (hp : p.sweep = some x) :
    x = (ud, uj) :=
  hs.sweeps x (mem_sweeps h hp)

/-- An object that is still to be deleted was not deleted. -/
lemma Tidy.not_mem_deleted {s : State} {ud uj : List ℕ} (hs : Tidy s ud uj) {w : ℕ}
    (hw : w ∈ ud) : w ∉ s.deleted := by
  have hnd := created_nodup s
  rw [hs.deleted] at hnd
  exact fun hmem => (List.nodup_append.1 hnd).2.2 w hmem w hw rfl

/-- An object that is still to be joined was not joined. -/
lemma Tidy.not_mem_joined {s : State} {ud uj : List ℕ} (hs : Tidy s ud uj) {w : ℕ}
    (hw : w ∈ uj) : w ∉ s.joined := by
  have hnd := created_nodup s
  rw [hs.joined] at hnd
  exact fun hmem => (List.nodup_append.1 hnd).2.2 w hmem w hw rfl

/-- A step in the loop of `stop`, on the next object `w`. -/
lemma Tidy.of_sweep {s t : State} {w : ℕ} {rest uj : List ℕ} (hs : Tidy s (w :: rest) uj) {i : ℕ}
    {p q : Pc} (h : s.threads[i]? = some p) (hp : p.sweep = some (w :: rest, uj))
    (hthreads : t.threads = s.threads.set i q) {ud' uj' : List ℕ}
    (hq : q.sweep = some (ud', uj')) (hworker : q.isWorker = p.isWorker)
    (hworkers : t.workers = s.workers) (hdeleted : s.deleted ++ w :: rest = t.deleted ++ ud')
    (hjoined : s.joined ++ uj = t.joined ++ uj')
    (htouched : t.touchedDeleted = (s.touchedDeleted || decide (w ∈ s.deleted))) :
    Tidy t ud' uj' := by
  have hcreated : t.created = s.created := created_congr (by rw [hthreads, map_set_of_eq h hworker])
  have hsweeps := hs.advance (List.cons_ne_nil _ _) h hp hthreads hq
  have hne : t.workers ≠ [] := by
    rw [hworkers]
    exact fun h0 => List.cons_ne_nil _ _ (hs.no_workers h0).1
  exact {
    deleted := by rw [hcreated, hs.deleted, hdeleted]
    joined := by rw [hcreated, hs.joined, hjoined]
    sweeps := by
      rw [hsweeps]
      exact fun x hx => List.mem_singleton.1 hx
    at_rest := by
      rw [hsweeps]
      exact fun h0 => absurd h0 (List.cons_ne_nil _ _)
    no_workers := fun h0 => absurd h0 hne
    one_sweep := fun _ => by rw [hsweeps, List.length_singleton]
    workers := by rw [hcreated, hworkers]; exact hs.workers
    untouched := by
      rw [htouched, hs.untouched, Bool.false_or, decide_eq_false_iff_not]
      exact hs.not_mem_deleted List.mem_cons_self }

/-- `stop` begins its loop. -/
lemma Tidy.stopBegin {s : State} {ud uj : List ℕ} (hs : Tidy s ud uj) {i : ℕ}
    (h : s.threads[i]? = some .stopScan) (hapart : Apart i s) :
    Tidy (s.goto i (.stopJoinable s.workers)) ud uj := by
  have hrest : (ud, uj) = (s.workers, s.workers) := by
    by_cases hw : s.workers = []
    · rw [(hs.no_workers hw).1, (hs.no_workers hw).2, hw]
    · obtain ⟨hud, huj⟩ := hs.at_rest (hapart.1 h hw)
      rw [hud, huj]
  have hcreated : (s.goto i (.stopJoinable s.workers)).created = s.created :=
    created_congr (map_set_of_eq h (by rfl))
  have hsweeps : ((s.goto i (.stopJoinable s.workers)).sweeps : Multiset (List ℕ × List ℕ))
      = s.sweeps + {(s.workers, s.workers)} :=
    (add_zero _).symm.trans (filterMap_set_add (f := Pc.sweep) h _)
  exact {
    deleted := by rw [hcreated]; exact hs.deleted
    joined := by rw [hcreated]; exact hs.joined
    sweeps := by
      intro x hx
      rw [← Multiset.mem_coe, hsweeps, Multiset.mem_add, Multiset.mem_coe,
        Multiset.mem_singleton] at hx
      rcases hx with hx | rfl
      · exact hs.sweeps x hx
      · exact hrest.symm
    at_rest := fun _ => Prod.mk.inj hrest
    no_workers := hs.no_workers
    one_sweep := by
      intro hw
      rw [← Multiset.coe_card, hsweeps, hapart.1 h hw]
      rfl
    workers := by rw [hcreated]; exact hs.workers
    untouched := hs.untouched }

/-- `stop` clears the vector. -/
lemma Tidy.stopCleared {s t : State} {ud uj : List ℕ} (hs : Tidy s ud uj) {i : ℕ}
    (h : s.threads[i]? = some .stopClear) (hthreads : t.threads = s.threads.set i .idle)
    (hworkers : t.workers = []) (hjoined : t.joined = s.joined) (hdeleted : t.deleted = s.deleted)
    (htouched : t.touchedDeleted = s.touchedDeleted) : Tidy t ud uj := by
  obtain ⟨rfl, rfl⟩ := Prod.mk.inj (hs.eq_of_sweep h rfl)
  have hcreated : t.created = s.created :=
    created_congr (by rw [hthreads, map_set_of_eq h (by rfl)])
  exact {
    deleted := by rw [hcreated, hdeleted]; exact hs.deleted
    joined := by rw [hcreated, hjoined]; exact hs.joined
    sweeps := by
      intro x hx
      rw [State.sweeps, hthreads] at hx
      obtain ⟨p, hp, hx⟩ := List.mem_filterMap.1 hx
      rcases List.mem_or_eq_of_mem_set hp with hp | rfl
      · exact hs.sweeps x (List.mem_filterMap.2 ⟨p, hp, hx⟩)
      · cases hx
    at_rest := fun _ => ⟨hworkers.symm, hworkers.symm⟩
    no_workers := fun _ => ⟨rfl, rfl⟩
    one_sweep := fun hne => absurd hworkers hne
    workers := by rw [hworkers]; exact List.nil_suffix
    untouched := htouched.trans hs.untouched }

/-- `start` creates workers. -/
lemma Tidy.startSpawn {s t : State} {ud uj : List ℕ} (hs : Tidy s ud uj) {i : ℕ}
    (h : s.threads[i]? = some .startBody) (hw : s.workers = []) (hapart : Apart i s)
    (hthreads : t.threads = s.threads.set i .idle ++ List.replicate s.poolSize .loopTest)
    (hworkers : t.workers = s.newWorkers) (hjoined : t.joined = s.joined)
    (hdeleted : t.deleted = s.deleted) (htouched : t.touchedDeleted = s.touchedDeleted) :
    Tidy t s.newWorkers s.newWorkers := by
  obtain ⟨rfl, rfl⟩ := hs.no_workers hw
  have hcreated := created_startSpawn h hthreads
  have hsweeps : t.sweeps = s.sweeps := by
    rw [State.sweeps, hthreads, List.filterMap_append, filterMap_set_of_eq h (by rfl)]
    simp [State.sweeps, Pc.sweep]
  exact {
    deleted := by rw [hcreated, hdeleted, hs.deleted, List.append_nil]
    joined := by rw [hcreated, hjoined, hs.joined, List.append_nil]
    sweeps := by
      rw [hsweeps]
      by_cases hnew : s.newWorkers = []
      · rw [hnew]
        exact hs.sweeps
      · rw [hapart.2 h hw hnew]
        exact fun x hx => absurd hx List.not_mem_nil
    at_rest := fun _ => ⟨hworkers.symm, hworkers.symm⟩
    no_workers := fun h0 => ⟨hworkers.symm.trans h0, hworkers.symm.trans h0⟩
    one_sweep := by
      intro hne
      rw [hworkers] at hne
      rw [hsweeps, hapart.2 h hw hne]
      exact Nat.zero_le 1
    workers := by
      rw [hcreated, hworkers]
      exact List.suffix_append _ _
    untouched := htouched.trans hs.untouched }

lemma Step.tidy {i : ℕ} {s t : State} (hst : Step i s t) (hapart : Apart i s)
    (hs : ∃ ud uj, Tidy s ud uj) : ∃ ud uj, Tidy t ud uj := by
  obtain ⟨ud, uj, hs⟩ := hs
  have hwoken : ∀ p q : Pc, p.woken = some q → q.isWorker = p.isWorker := fun p q =>
    isWorker_of_woken
  have hsweep : ∀ p q : Pc, p.woken = some q → q.sweep = p.sweep := fun p q => sweep_of_woken
  cases hst with
  | lock h hq =>
    exact ⟨ud, uj, hs.of_move h rfl (isWorker_of_afterLock hq) (sweep_of_afterLock hq)
      rfl rfl rfl rfl⟩
  | wake h hq =>
    exact ⟨ud, uj, hs.of_move h rfl (isWorker_of_woken hq) (sweep_of_woken hq) rfl rfl rfl rfl⟩
  | call c h =>
    exact ⟨ud, uj, hs.of_move h rfl (by cases c <;> rfl) (by cases c <;> rfl) rfl rfl rfl rfl⟩
  | endNotify h _ | stopSet h =>
    refine ⟨ud, uj, hs.of_quiet ?_ ?_ rfl rfl rfl rfl⟩
    · exact (map_set_of_eq (getElem?_notifyAll h) (by rfl)).trans (map_notifyAll hwoken _)
    · exact (filterMap_set_of_eq (getElem?_notifyAll h) (by rfl)).trans
        (filterMap_notifyAll hsweep _)
  | push h hn =>
    have h' := hn.getElem?_of_not_blocked h rfl
    refine ⟨ud, uj, hs.of_quiet ?_ ?_ rfl rfl rfl rfl⟩
    · exact (map_set_of_eq h' (by rfl)).trans (hn.map_eq hwoken)
    · exact (filterMap_set_of_eq h' (by rfl)).trans (hn.filterMap_eq hsweep)
  | startSpawn h hw => exact ⟨_, _, hs.startSpawn h hw hapart rfl rfl rfl rfl rfl⟩
  | stopBegin h => exact ⟨ud, uj, hs.stopBegin h hapart⟩
  | @stopIsJoinable w rest h hw =>
    obtain ⟨rfl, rfl⟩ := Prod.mk.inj (hs.eq_of_sweep h rfl)
    exact ⟨_, _, hs.of_sweep (q := .stopJoin w rest) h rfl rfl rfl rfl rfl rfl rfl rfl⟩
  | stopNotJoinable h hw =>
    -- what is still to be joined was not joined
    obtain ⟨rfl, rfl⟩ := Prod.mk.inj (hs.eq_of_sweep h rfl)
    exact absurd hw (hs.not_mem_joined List.mem_cons_self)
  | @stopJoined w rest h hw =>
    obtain ⟨rfl, rfl⟩ := Prod.mk.inj (hs.eq_of_sweep h rfl)
    exact ⟨_, _, hs.of_sweep (q := .stopDelete w rest) h rfl rfl rfl rfl rfl rfl
      (List.append_cons _ _ _) rfl⟩
  | @stopDeleted w rest h =>
    obtain ⟨rfl, rfl⟩ := Prod.mk.inj (hs.eq_of_sweep h rfl)
    exact ⟨_, _, hs.of_sweep (q := .stopJoinable rest) h rfl rfl rfl rfl rfl
      (List.append_cons _ _ _) rfl rfl⟩
  | stopCleared h => exact ⟨ud, uj, hs.stopCleared h rfl rfl rfl rfl rfl⟩
  | timeout h | lateTimeout h | loopExit h | loopEnter h | getBlock h | getFalse h | getTrue h
  | inc h | expire h | begin h | finish _ h | dec h | endQuiet h | initialRefuse h | initialSet h
  | startRefuse h | waitNone h | waitBlock h | waitTrue h | waitFalse h | waitAgain h | waitDone h
  | stopLoopEnd h => exact ⟨ud, uj, hs.of_move h rfl rfl rfl rfl rfl rfl rfl⟩

lemma tidy_fresh (n : ℕ) : Tidy (State.fresh n) [] [] := by
  have hcreated : (State.fresh n).created = [] := by
    rw [State.created, List.filter_eq_nil_iff]
    intro i hi
    simp [State.fresh, Pc.isWorker, List.getElem?_replicate]
  have hsweeps : (State.fresh n).sweeps = [] := by
    simp [State.sweeps, State.fresh, Pc.sweep]
  exact {
    deleted := hcreated
    joined := hcreated
    sweeps := by rw [hsweeps]; exact fun x hx => absurd hx List.not_mem_nil
    at_rest := fun _ => ⟨rfl, rfl⟩
    no_workers := fun _ => ⟨rfl, rfl⟩
    one_sweep := fun hne => absurd rfl hne
    workers := List.nil_suffix
    untouched := rfl }

/-- The objects are in order in every state of a run that meets the condition. -/
lemma exists_tidy {s : State} (h : Reachable Init ApartNext s) : ∃ ud uj, Tidy s ud uj := by
  refine Reachable.invariant (I := fun s => ∃ ud uj, Tidy s ud uj) ?_ ?_ h
  · rintro s ⟨n, rfl⟩
    exact ⟨[], [], tidy_fresh n⟩
  · rintro s t - hs ⟨i, hst, hapart⟩
    exact hst.tidy hapart hs

/-! ## Concurrent calls of `stop` -/

/-- What the calls of `stop` owe the `std::thread` objects, in a state `s`. -/
structure SweptOnce (s : State) : Prop where
  joined : ∀ w, s.joined.count w ≤ 1
  deleted : ∀ w, s.deleted.count w ≤ 1
  untouched : s.touchedDeleted = false
  /-- When a `stop` is about to return, the objects in the vector were deleted. -/
  returns : ∀ i : ℕ, s.threads[i]? = some .stopClear → ∀ w ∈ s.workers, s.deleted.count w = 1

lemma Tidy.sweptOnce {s : State} {ud uj : List ℕ} (hs : Tidy s ud uj) : SweptOnce s := by
  have hdeleted : s.deleted.Nodup := by
    have hnd := created_nodup s
    rw [hs.deleted] at hnd
    exact hnd.of_append_left
  have hjoined : s.joined.Nodup := by
    have hnd := created_nodup s
    rw [hs.joined] at hnd
    exact hnd.of_append_left
  constructor
  · exact fun w => List.nodup_iff_count_le_one.1 hjoined w
  · exact fun w => List.nodup_iff_count_le_one.1 hdeleted w
  · exact hs.untouched
  · intro i h w hw
    obtain ⟨rfl, -⟩ := Prod.mk.inj (hs.eq_of_sweep h rfl)
    have hmem : w ∈ s.created := hs.workers.subset hw
    rw [hs.deleted, List.append_nil] at hmem
    exact List.count_eq_one_of_mem hdeleted hmem

/-- **Concurrent `stop`.**  In a run in which no `stop` begins its loop over some workers, and
no `start` creates some, while a thread is between the beginning of this loop and the clear,
every `std::thread` object is joined at most once, deleted at most once and not touched after
that, and when a `stop` returns, the objects in the vector were deleted once. -/
theorem sweptOnce_of_apart {s : State} (h : Reachable Init ApartNext s) : SweptOnce s := by
  obtain ⟨ud, uj, hs⟩ := exists_tidy h
  exact hs.sweptOnce

lemma Step.apartNext {i : ℕ} {s t : State} (hst : Step i s t) (hapart : s.sweeps = []) :
    ApartNext s t :=
  ⟨i, hst, fun _ _ => hapart, fun _ _ _ => hapart⟩

/-- A step that is neither the beginning of the loop nor the creation of workers. -/
lemma Step.apartNext_of_ne {i : ℕ} {s t : State} (hst : Step i s t)
    (hscan : s.threads[i]? ≠ some .stopScan) (hbody : s.threads[i]? ≠ some .startBody) :
    ApartNext s t :=
  ⟨i, hst, fun h => absurd h hscan, fun h => absurd h hbody⟩

/-- Both clients of a pool with one worker have called `stop`; client 0 has joined and deleted the
worker and has returned, and client 1, which has found the vector empty, is about to clear it. -/
def sweptPool : State :=
  { State.fresh 2 with
    terminate := true
    mutex := some 1
    threads := [.idle, .stopClear, .exited]
    joined := [2]
    deleted := [2] }

/-- The run to the point at which both clients are at the loop of `stop`. -/
lemma bothStops_reachable : Reachable Init ApartNext
    { State.fresh 2 with
      workers := [2], terminate := true, threads := [.stopScan, .stopScan, .exited] } := by
  have h₀ : Reachable Init ApartNext (State.fresh 2) := .of_init ⟨2, rfl⟩
  have h₁ := ((h₀.tail (Step.apartNext (i := 0) (.call .start rfl) rfl)).tail
    (Step.apartNext (i := 0) (.lock rfl rfl rfl) rfl)).tail
    (Step.apartNext (i := 0) (.startSpawn rfl rfl) rfl)
  have h₂ := ((h₁.tail (Step.apartNext (i := 0) (.call .stop rfl) rfl)).tail
    (Step.apartNext (i := 0) (.lock rfl rfl rfl) rfl)).tail
    (Step.apartNext (i := 0) (.stopSet rfl) rfl)
  have h₃ := ((h₂.tail (Step.apartNext (i := 1) (.call .stop rfl) rfl)).tail
    (Step.apartNext (i := 1) (.lock rfl rfl rfl) rfl)).tail
    (Step.apartNext (i := 1) (.stopSet rfl) rfl)
  exact h₃.tail (Step.apartNext (i := 2) (.loopExit rfl rfl) rfl)

lemma sweptPool_reachable : Reachable Init ApartNext sweptPool := by
  have h := bothStops_reachable.tail (Step.apartNext (i := 0) (.stopBegin rfl) rfl)
  have h := h.tail (Step.apartNext_of_ne (i := 0) (.stopIsJoinable rfl (by decide)) (by decide)
    (by decide))
  have h := h.tail (Step.apartNext_of_ne (i := 0) (.stopJoined rfl rfl) (by decide) (by decide))
  have h := h.tail (Step.apartNext_of_ne (i := 0) (.stopDeleted rfl) (by decide) (by decide))
  have h := h.tail (Step.apartNext_of_ne (i := 0) (.stopLoopEnd rfl) (by decide) (by decide))
  have h := h.tail (Step.apartNext_of_ne (i := 0) (.lock rfl rfl rfl) (by decide) (by decide))
  have h := h.tail (Step.apartNext_of_ne (i := 0) (.stopCleared rfl) (by decide) (by decide))
  -- client 1 has nothing to join
  have h := h.tail (Step.apartNext (i := 1) (.stopBegin rfl) rfl)
  have h := h.tail (Step.apartNext_of_ne (i := 1) (.stopLoopEnd rfl) (by decide) (by decide))
  exact h.tail (Step.apartNext_of_ne (i := 1) (.lock rfl rfl rfl) (by decide) (by decide))

theorem sweptOnce_sweptPool : SweptOnce sweptPool ∧ sweptPool.threads[1]? = some .stopClear ∧
    sweptPool.joined = [2] ∧ sweptPool.deleted = [2] :=
  ⟨sweptOnce_of_apart sweptPool_reachable, rfl, rfl, rfl⟩

/-- Both clients were in the loop of `stop` at the same time. -/
def sweptTwice : State :=
  { State.fresh 2 with
    workers := [2]
    terminate := true
    threads := [.stopJoinable [], .stopJoinable [], .exited]
    joined := [2]
    deleted := [2, 2]
    touchedDeleted := true }

theorem not_sweptOnce_sweptTwice :
    Reach sweptTwice ∧ sweptTwice.deleted.count 2 = 2 ∧ ¬ SweptOnce sweptTwice := by
  have hreach : Reach sweptTwice := by
    have h₀ : Reach _ := bothStops_reachable.mono fun _ _ ⟨i, hst, _⟩ => ⟨i, hst⟩
    have h₁ := (h₀.tail ⟨0, .stopBegin rfl⟩).tail ⟨1, .stopBegin rfl⟩
    -- client 0 joins and deletes the worker
    have h₂ := ((h₁.tail ⟨0, .stopIsJoinable rfl (by decide)⟩).tail
      ⟨0, .stopJoined rfl rfl⟩).tail ⟨0, .stopDeleted rfl⟩
    -- client 1 tests the deleted object, and deletes it again
    exact (h₂.tail ⟨1, .stopNotJoinable rfl (by decide)⟩).tail ⟨1, .stopDeleted rfl⟩
  exact ⟨hreach, rfl, fun h => by cases h.untouched⟩

/-! ## A stopped pool is quiet -/

/-- A worker that has left `run` makes no step. -/
lemma Step.ne_exited {i : ℕ} {s t : State} (hst : Step i s t) :
    s.threads[i]? ≠ some .exited := by
  intro h
  have hpc : ∀ {p : Pc}, s.threads[i]? = some p → p = .exited := fun h' =>
    Option.some.inj (h'.symm.trans h)
  cases hst with
  | lock h' hq | wake h' hq =>
    rw [hpc h'] at hq
    cases hq
  | call _ h' | finish _ h' => cases hpc h'
  | _ h' => cases hpc h'

lemma Step.exited {i w : ℕ} {s t : State} (hst : Step i s t)
    (h : s.threads[w]? = some .exited) : t.threads[w]? = some .exited := by
  by_cases hiw : i = w
  · subst hiw
    exact absurd h hst.ne_exited
  · rcases hst.of_other hiw h with h' | ⟨q, hq, -⟩
    · exact h'
    · cases hq

/-- Only a worker that has left `run` is joined. -/
lemma Reach.exited_of_joined {s : State} (h : Reach s) :
    ∀ w ∈ s.joined, s.threads[w]? = some .exited := by
  refine Reachable.invariant
    (I := fun s : State => ∀ w ∈ s.joined, s.threads[w]? = some .exited) ?_ ?_ h
  · rintro s ⟨n, rfl⟩ w hw
    cases hw
  · rintro s t - hs ⟨i, hst⟩ w hw
    by_cases hold : w ∈ s.joined
    · exact hst.exited (hs w hold)
    · -- the worker was joined in this step
      cases hst with
      | stopJoined h hexit =>
        rcases List.mem_append.1 hw with hw | hw
        · exact absurd hw hold
        · rw [List.mem_singleton.1 hw]
          exact (Step.stopJoined h hexit).exited hexit
      | _ => exact absurd hw hold

/-- A thread that is behind the first block of `stop`, or a worker that has left `run`, has
found `_terminate` set. -/
lemma Reach.terminate_of_afterStop {s : State} (h : Reach s) {p : Pc} (hp : p ∈ s.threads)
    (hstop : p.afterStop = true) : s.terminate = true := by
  by_contra hterm
  rw [(h.live (Bool.eq_false_of_not_eq_true hterm)).no_stop p hp] at hstop
  cases hstop

/-- The pool is stopped and no worker has a task. -/
def Halted (s : State) : Prop := s.terminate = true ∧ s.held = []

/-- A task is taken only while `_terminate` is not set. -/
lemma Step.terminate_of_taken {i : ℕ} {s t : State} (hst : Step i s t)
    (h : t.taken ≠ s.taken) : s.terminate = false := by
  cases hst with
  | getTrue _ hg => exact (State.get_eq_some hg).1
  | _ => exact absurd rfl h

lemma held_ne_nil {s : State} {i : ℕ} {p : Pc} (h : s.threads[i]? = some p) {x : TaskFunc}
    (hx : p.held = some x) : s.held ≠ [] :=
  List.ne_nil_of_mem (List.mem_filterMap.2 ⟨p, List.mem_of_getElem? h, hx⟩)

/-- No step takes a task or starts a body in a halted pool. -/
lemma Step.halted {i : ℕ} {s t : State} (hst : Step i s t) (hs : Halted s) :
    Halted t ∧ t.started = s.started := by
  have hterm : t.terminate = true := hst.terminate_eq_true hs.1
  cases hst.logStep with
  | quiet hf _ _ | push _ hf _ _ => exact ⟨⟨hterm, hf.held.trans hs.2⟩, hf.started⟩
  | act h _ _ ha =>
    cases ha with
    | take _ htaken =>
      have hfalse := hst.terminate_of_taken (by rw [htaken]; simp)
      rw [hs.1] at hfalse
      cases hfalse
    | begin | drop | finish => exact absurd hs.2 (held_ne_nil h rfl)

lemma Halted.run {s t : State} (hs : Halted s) (h : ReflTransGen Next s t) :
    Halted t ∧ t.started = s.started := by
  induction h with
  | refl => exact ⟨hs, rfl⟩
  | tail _ hbc ih =>
    obtain ⟨i, hbc⟩ := hbc
    obtain ⟨ht, hstarted⟩ := hbc.halted ih.1
    exact ⟨ht, hstarted.trans ih.2⟩

lemma inStop_of_sweep {p : Pc} {x : List ℕ × List ℕ} (h : p.sweep = some x) :
    p.inStop = true := by
  cases p <;> first | rfl | cases h

/-- In an orderly state nobody else is sweeping. -/
lemma Orderly.sweeps_eq_nil {s : State} (hs : Orderly s) {i : ℕ} {p : Pc}
    (h : s.threads[i]? = some p) (hp : p.inStop = true ∨ p.inStart = true)
    (hsweep : p.sweep = none) : s.sweeps = [] := by
  rw [State.sweeps, List.filterMap_eq_nil_iff]
  intro q hq
  obtain ⟨j, hj⟩ := List.getElem?_of_mem hq
  by_cases hji : j = i
  · subst hji
    rwa [Option.some.inj (hj.symm.trans h)]
  · by_contra hne
    obtain ⟨x, hx⟩ := Option.ne_none_iff_exists'.1 hne
    obtain ⟨hstop, hstart⟩ := hs j i q p hji hj h (inStop_of_sweep hx)
    rcases hp with hp | hp
    · rw [hstop] at hp
      cases hp
    · rw [hstart] at hp
      cases hp

lemma OrderlyNext.apartNext {s t : State} (h : OrderlyNext s t) : ApartNext s t := by
  obtain ⟨hs, i, hst⟩ := h
  refine ⟨i, hst, fun hi _ => ?_, fun hi _ _ => ?_⟩
  · exact hs.sweeps_eq_nil hi (Or.inl rfl) rfl
  · exact hs.sweeps_eq_nil hi (Or.inr rfl) rfl

/-- What `stop` leaves behind. -/
structure Quiesced (s : State) : Prop where
  /-- Every worker has left `run`. -/
  exited : ∀ p ∈ s.threads, p.isWorker = true → p = .exited
  not_running : s.runningCount = 0
  /-- The tasks that were taken were run to their ends or dropped. -/
  settled : ∀ x ∈ s.taken, s.Settled x
  /-- No body is started any more, whatever calls follow. -/
  no_start : ∀ t, ReflTransGen Next s t → t.started = s.started

/-- When all workers have left `run` and `_terminate` is set, the pool is quiet. -/
lemma Reach.quiesced {s : State} (h : Reach s) (hterm : s.terminate = true)
    (hexit : ∀ p ∈ s.threads, p.isWorker = true → p = .exited) : Quiesced s := by
  have hheld : s.held = [] := by
    rw [State.held, List.filterMap_eq_nil_iff]
    intro p hp
    cases hw : p.isWorker with
    | false => exact held_of_not_worker hw
    | true => rw [hexit p hp hw]; rfl
  constructor
  · exact hexit
  · by_contra hne
    rw [h.runningCount] at hne
    obtain ⟨p, hp, hcount⟩ := exists_mem_of_total_ne_zero hne
    have hcounted : p.counted = true := by
      by_contra hnot
      exact hcount (if_neg hnot)
    have hworker := isWorker_of_awake (awake_of_inRound (inRound_of_counted hcounted))
    rw [hexit p hp hworker] at hcounted
    cases hcounted
  · intro x hx
    have htaken : (s.taken : Multiset TaskFunc) = s.held + (s.settled.map Prod.fst : List _) :=
      h.accounted.taken_eq
    rw [hheld, Multiset.coe_nil, zero_add] at htaken
    rw [← Multiset.mem_coe, htaken, Multiset.mem_coe] at hx
    obtain ⟨⟨y, f⟩, hf, rfl⟩ := List.mem_map.1 hx
    exact ⟨f, hf⟩
  · have hhalted : Halted s := ⟨hterm, hheld⟩
    exact fun t hrun => (hhalted.run hrun).2

/-- A `stop` that is about to return has joined every worker. -/
lemma Tidy.exited {s : State} {ud uj : List ℕ} (hs : Tidy s ud uj) (hreach : Reach s) {i : ℕ}
    (h : s.threads[i]? = some .stopClear) {p : Pc} (hp : p ∈ s.threads)
    (hworker : p.isWorker = true) : p = .exited := by
  obtain ⟨w, hw⟩ := List.getElem?_of_mem hp
  have hmem := mem_created hw hworker
  obtain ⟨-, rfl⟩ := Prod.mk.inj (hs.eq_of_sweep h rfl)
  rw [hs.joined, List.append_nil] at hmem
  exact Option.some.inj (hw.symm.trans (hreach.exited_of_joined w hmem))

/-- The last step of `stop`. -/
lemma Step.of_stopClear {i : ℕ} {s t : State} (hst : Step i s t)
    (hi : s.threads[i]? = some .stopClear) : t = { s.leave i .idle with workers := [] } := by
  have hpc : ∀ {p : Pc}, s.threads[i]? = some p → p = .stopClear := fun h' =>
    Option.some.inj (h'.symm.trans hi)
  cases hst with
  | stopCleared => rfl
  | lock h' hq | wake h' hq =>
    rw [hpc h'] at hq
    cases hq
  | call _ h' | finish _ h' => cases hpc h'
  | _ h' => cases hpc h'

/-- **`stop` quiesces the pool.**  In every interleaving of the workers and the clients in
which no `start` and no second `stop` goes on during a `stop`, all workers have left `run`
when `stop` returns, `running_count` is 0, the tasks that were taken are settled, and from
then on no body is started. -/
theorem quiesced_of_stop {s t : State} {i : ℕ} (h : Reachable Init OrderlyNext s)
    (hi : s.threads[i]? = some .stopClear) (hst : Step i s t) : Quiesced t := by
  have hreach : Reach s := h.mono fun _ _ hnext => hnext.2
  obtain ⟨ud, uj, hs⟩ := exists_tidy (h.mono fun _ _ hnext => hnext.apartNext)
  obtain rfl := hst.of_stopClear hi
  refine Reach.quiesced (hreach.tail ⟨i, hst⟩) ?_ ?_
  · exact hreach.terminate_of_afterStop (List.mem_of_getElem? hi) rfl
  · refine forall_mem_set (fun p hp hworker => ?_) i fun hf => by cases hf
    exact hs.exited hreach hi hp hworker

/-- A pool in which only the first thread is in `start` or `stop`. -/
lemma Step.orderlyNext {i : ℕ} {s t : State} (hst : Step i s t) {p : Pc} {rest : List Pc}
    (hthreads : s.threads = p :: rest)
    (hrest : ∀ q ∈ rest, q.inStop = false ∧ q.inStart = false) : OrderlyNext s t := by
  refine ⟨fun j k p' q hjk hj hk hp => ?_, i, hst⟩
  rw [hthreads] at hj hk
  cases k with
  | succ k => exact hrest q (List.mem_of_getElem? (by simpa using hk))
  | zero =>
    obtain ⟨j, rfl⟩ := Nat.exists_eq_succ_of_ne_zero hjk
    rw [(hrest p' (List.mem_of_getElem? (by simpa using hj))).1] at hp
    cases hp

/-- A pool with one worker, which was in the body of a task when client 0 called `stop`, and
with a task that client 1 has pushed after that; client 0 is about to return. -/
def stoppedPool : State :=
  { State.fresh 2 with
    tasks := [⟨1, 0⟩]
    workers := [2]
    terminate := true
    mutex := some 0
    threads := [.stopClear, .idle, .exited]
    pushed := [⟨0, 0⟩, ⟨1, 0⟩]
    taken := [⟨0, 0⟩]
    started := [⟨0, 0⟩]
    settled := [(⟨0, 0⟩, .ran false)]
    joined := [2]
    deleted := [2] }

lemma stoppedPool_reachable : Reachable Init OrderlyNext stoppedPool := by
  have h₀ : Reachable Init OrderlyNext (State.fresh 2) := .of_init ⟨2, rfl⟩
  -- client 0 starts the pool, client 1 pushes a task
  have h₁ := ((h₀.tail (Step.orderlyNext (i := 0) (.call .start rfl) rfl (by decide))).tail
    (Step.orderlyNext (i := 0) (.lock rfl rfl rfl) rfl (by decide))).tail
    (Step.orderlyNext (i := 0) (.startSpawn rfl rfl) rfl (by decide))
  have h₂ := ((h₁.tail (Step.orderlyNext (i := 1) (.call (.exec 0) rfl) rfl (by decide))).tail
    (Step.orderlyNext (i := 1) (.lock rfl rfl rfl) rfl (by decide))).tail
    (Step.orderlyNext (i := 1) (.push rfl (Or.inr ⟨by decide, rfl⟩)) rfl (by decide))
  -- the worker takes it, and is in its body
  have h₃ := ((h₂.tail (Step.orderlyNext (i := 2) (.loopEnter rfl rfl) rfl (by decide))).tail
    (Step.orderlyNext (i := 2) (.lock rfl rfl rfl) rfl (by decide))).tail
    (Step.orderlyNext (i := 2) (.getTrue rfl rfl) rfl (by decide))
  have h₄ := (h₃.tail (Step.orderlyNext (i := 2) (.inc rfl) rfl (by decide))).tail
    (Step.orderlyNext (i := 2) (@Step.begin 2 _ ⟨0, 0⟩ 0 rfl rfl) rfl (by decide))
  -- client 0 sets `_terminate` and waits for the worker; client 1 pushes another task
  have h₅ := ((h₄.tail (Step.orderlyNext (i := 0) (.call .stop rfl) rfl (by decide))).tail
    (Step.orderlyNext (i := 0) (.lock rfl rfl rfl) rfl (by decide))).tail
    (Step.orderlyNext (i := 0) (.stopSet rfl) rfl (by decide))
  have h₆ := (h₅.tail (Step.orderlyNext (i := 0) (.stopBegin rfl) rfl (by decide))).tail
    (Step.orderlyNext (i := 0) (.stopIsJoinable rfl (by decide)) rfl (by decide))
  have h₇ := ((h₆.tail (Step.orderlyNext (i := 1) (.call (.exec 0) rfl) rfl (by decide))).tail
    (Step.orderlyNext (i := 1) (.lock rfl rfl rfl) rfl (by decide))).tail
    (Step.orderlyNext (i := 1) (.push rfl (Or.inr ⟨by decide, rfl⟩)) rfl (by decide))
  -- the worker ends its round and leaves `run`
  have h₈ := ((h₇.tail (Step.orderlyNext (i := 2) (.finish false rfl) rfl (by decide))).tail
    (Step.orderlyNext (i := 2) (.dec rfl) rfl (by decide))).tail
    (Step.orderlyNext (i := 2) (.lock rfl rfl rfl) rfl (by decide))
  have h₉ := (h₈.tail (Step.orderlyNext (i := 2) (.endQuiet rfl (by decide)) rfl
    (by decide))).tail (Step.orderlyNext (i := 2) (.loopExit rfl rfl) rfl (by decide))
  -- client 0 joins and deletes it
  have h₁₀ := (h₉.tail (Step.orderlyNext (i := 0) (.stopJoined rfl rfl) rfl (by decide))).tail
    (Step.orderlyNext (i := 0) (.stopDeleted rfl) rfl (by decide))
  exact (h₁₀.tail (Step.orderlyNext (i := 0) (.stopLoopEnd rfl) rfl (by decide))).tail
    (Step.orderlyNext (i := 0) (.lock rfl rfl rfl) rfl (by decide))

theorem quiesced_stoppedPool :
    Step 0 stoppedPool { stoppedPool.leave 0 .idle with workers := [] } ∧
      Quiesced { stoppedPool.leave 0 .idle with workers := [] } :=
  ⟨.stopCleared rfl, quiesced_of_stop stoppedPool_reachable rfl (.stopCleared rfl)⟩

end CppExample.ThreadPool
