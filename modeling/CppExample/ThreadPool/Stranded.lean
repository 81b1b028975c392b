/-
# Callers that `stop` leaves behind

`wait_for_all_done` with no time limit waits until the queue is empty.  Only a worker takes
tasks out of the queue, and a worker takes none once `_terminate` is set, which `get` tests in
the predicate of its own wait and `wait_for_all_done` does not.  So a caller that is in this
wait while the pool is stopped and the queue is not empty stays there for ever.

This comes about in three ways, one for each step that completes the situation: `stop` sets
the flag, `exec` pushes a task, or the caller finds the queue not empty.  In a run without
such steps nobody is left behind.
-/
import CppExample.ThreadPool.Stop

namespace CppExample.ThreadPool
open Lib Relation

/-- The points of `wait_for_all_done` inside of the wait without a time limit. -/
def Pc.waitsForever : Pc → Bool
  | waitBlocked false _ | waitWoken false false _ | waitPred false false _ => true
  | _ => false

/-- `stop` has set `_terminate`, whether or not it has returned since; all workers have left
`run`; and a caller of `wait_for_all_done` without a time limit is blocked while its predicate
is false and nobody will ever make it true. -/
structure Stranded (s : State) : Prop where
  stopped : s.terminate = true
  exited : ∀ p ∈ s.threads, p.isWorker = true → p = .exited
  blocked : ∃ (c : ℕ) (before : List TaskFunc), s.threads[c]? = some (.waitBlocked false before)
  not_done : s.tasks ≠ []
  forever : ∀ t, ReflTransGen Next s t → t.tasks ≠ []

/-- The step of thread `i` does not bring a caller, a queue that is not empty and
`_terminate` together: `stop` sets the flag when the queue is empty or nobody is in the wait,
`exec` pushes when the flag is not set or nobody is in the wait, and a caller comes to its
first test when the flag is not set or the queue is empty. -/
def Attended (i : ℕ) (s : State) : Prop :=
  (s.threads[i]? = some .stopBody → s.tasks = [] ∨ ∀ p ∈ s.threads, p.waitsForever = false) ∧
    (∀ e, s.threads[i]? = some (.execBody e) →
      s.terminate = false ∨ ∀ p ∈ s.threads, p.waitsForever = false) ∧
    ∀ before, s.threads[i]? = some (.waitBody false before) → s.terminate = false ∨ s.tasks = []

/-- The steps of the pool that meet the condition. -/
def AttendedNext (s t : State) : Prop := ∃ i, Step i s t ∧ Attended i s

/-- A caller waits for a queue that nobody serves any more. -/
structure Forsaken (s : State) : Prop where
  stopped : s.terminate = true
  not_done : s.tasks ≠ []
  waits : ∃ p ∈ s.threads, p.waitsForever = true

/-! ## How a caller is forsaken -/

lemma waitsForever_of_woken {p q : Pc} (h : p.woken = some q) :
    q.waitsForever = p.waitsForever := by
  cases p with
  | getBlocked | waitBlocked timed before => cases h; first | rfl | (cases timed <;> rfl)
  | _ => cases h

lemma waitsForever_of_afterLock {p q : Pc} (h : p.afterLock = some q) :
    q.waitsForever = p.waitsForever := by
  cases p with
  | waitWoken timed timedOut before => cases h; cases timed <;> cases timedOut <;> rfl
  | _ => cases h <;> rfl

lemma Forsaken.of_move {s t : State} (ht : Forsaken t) {i : ℕ} {p q : Pc}
    (h : s.threads[i]? = some p) (hthreads : t.threads = s.threads.set i q)
    (hwaits : q.waitsForever = true → p.waitsForever = true)
    (hterm : t.terminate = s.terminate) (htasks : t.tasks = s.tasks) : Forsaken s := by
  refine ⟨hterm ▸ ht.stopped, htasks ▸ ht.not_done, ?_⟩
  have hw := ht.waits
  rw [hthreads] at hw
  exact exists_mem_of_set h hwaits hw

/-- Nobody is in the wait, although somebody is. -/
lemma Forsaken.absurd_waits {s : State} {ts : List Pc} {P : Prop}
    (hmap : ts.map Pc.waitsForever = s.threads.map Pc.waitsForever) {i : ℕ} {p q : Pc}
    (h : ts[i]? = some p) (hq : q.waitsForever = false)
    (hwaits : ∃ p ∈ ts.set i q, p.waitsForever = true)
    (hnone : ∀ p ∈ s.threads, p.waitsForever = false) : P := by
  have hold := exists_mem_of_set (f := Pc.waitsForever) h (fun hf => by rw [hq] at hf; cases hf)
    hwaits
  obtain ⟨r, hr, hwr⟩ := (exists_mem_congr hmap).1 hold
  rw [hnone r hr] at hwr
  cases hwr

/-- A step that meets the condition forsakes nobody. -/
lemma Step.forsaken {i : ℕ} {s t : State} (hst : Step i s t) (hatt : Attended i s)
    (ht : Forsaken t) : Forsaken s := by
  have hwoken : ∀ p q : Pc, p.woken = some q → q.waitsForever = p.waitsForever := fun p q =>
    waitsForever_of_woken
  cases hst with
  | lock h hq => exact ht.of_move h rfl (fun hf => waitsForever_of_afterLock hq ▸ hf) rfl rfl
  | wake h hq => exact ht.of_move h rfl (fun hf => waitsForever_of_woken hq ▸ hf) rfl rfl
  | call c h => exact ht.of_move h rfl (by cases c <;> (intro hf; cases hf)) rfl rfl
  | stopSet h =>
    rcases hatt.1 h with hempty | hnone
    · exact absurd hempty ht.not_done
    · exact Forsaken.absurd_waits (map_notifyAll hwoken _) (getElem?_notifyAll h) (by rfl)
        ht.waits hnone
  | push h hn =>
    rcases hatt.2.1 _ h with hterm | hnone
    · exact absurd (ht.stopped.symm.trans hterm) (by decide)
    · exact Forsaken.absurd_waits (hn.map_eq hwoken) (hn.getElem?_of_not_blocked h rfl) (by rfl)
        ht.waits hnone
  | @waitBlock timed before h hne =>
    cases timed with
    | true => exact ht.of_move h rfl (fun hf => by cases hf) rfl rfl
    | false =>
      rcases hatt.2.2 before h with hterm | hempty
      · exact absurd (ht.stopped.symm.trans hterm) (by decide)
      · exact absurd hempty hne
  | @waitAgain timed before h hne =>
    exact ht.of_move h rfl (by cases timed <;> exact fun hf => hf) rfl rfl
  | getTrue h hg => exact absurd (ht.stopped.symm.trans (State.get_eq_some hg).1) (by decide)
  | endNotify h hc => exact absurd hc.2 ht.not_done
  | startSpawn h hw =>
    refine ⟨ht.stopped, ht.not_done, ?_⟩
    obtain ⟨p, hp, hwp⟩ := ht.waits
    rcases List.mem_append.1 hp with hp | hp
    · exact exists_mem_of_set h (fun hf => by cases hf) ⟨p, hp, hwp⟩
    · rw [(List.mem_replicate.1 hp).2] at hwp
      cases hwp
  | timeout h | lateTimeout h | loopExit h | loopEnter h | getBlock h | getFalse h | inc h
  | expire h | begin h | finish _ h | dec h | endQuiet h | initialRefuse h | initialSet h
  | startRefuse h | waitNone h | waitTrue h | waitFalse h | waitDone h | stopBegin h
  | stopIsJoinable h | stopNotJoinable h | stopJoined h | stopDeleted h | stopLoopEnd h
  | stopCleared h => exact ht.of_move h rfl (fun hf => by cases hf) rfl rfl

/-! ## A forsaken caller stays forsaken -/

/-- A caller in the wait stays there while the queue is not empty. -/
lemma Step.waitsForever {i : ℕ} {s t : State} (hst : Step i s t) (hne : s.tasks ≠ []) {p : Pc}
    (h : s.threads[i]? = some p) (hp : p.waitsForever = true) :
    ∃ q, t.threads[i]? = some q ∧ q.waitsForever = true := by
  have hset := getElem?_set_self_of_getElem? h
  have hpc : ∀ {p' : Pc}, s.threads[i]? = some p' → p = p' := fun h' =>
    Option.some.inj (h.symm.trans h')
  cases hst with
  | lock h' hq =>
    obtain rfl := hpc h'
    exact ⟨_, hset _, (waitsForever_of_afterLock hq).trans hp⟩
  | wake h' hq =>
    obtain rfl := hpc h'
    exact ⟨_, hset _, (waitsForever_of_woken hq).trans hp⟩
  | @waitAgain timed before h' _ =>
    obtain rfl := hpc h'
    refine ⟨_, hset _, ?_⟩
    cases timed with
    | true => cases hp
    | false => rfl
  | waitTrue _ hempty => exact absurd hempty hne
  | @waitFalse timed _ h' _ =>
    obtain rfl := hpc h'
    cases timed <;> cases hp
  | call _ h' | finish _ h' =>
    obtain rfl := hpc h'
    cases hp
  | _ h' =>
    obtain rfl := hpc h'
    cases hp

lemma Forsaken.step {i : ℕ} {s t : State} (hs : Forsaken s) (hst : Step i s t) : Forsaken t := by
  refine ⟨hst.terminate_eq_true hs.stopped, ?_, ?_⟩
  · cases hst.logStep with
    | quiet _ htasks _ => rw [htasks]; exact hs.not_done
    | push _ _ htasks _ => rw [htasks]; simp
    | act _ _ _ ha =>
      cases ha with
      | take _ htaken =>
        have hfalse := hst.terminate_of_taken (by rw [htaken]; simp)
        rw [hs.stopped] at hfalse
        cases hfalse
      | begin htasks | drop htasks | finish htasks => rw [htasks]; exact hs.not_done
  · obtain ⟨p, hp, hwp⟩ := hs.waits
    obtain ⟨c, hc⟩ := List.getElem?_of_mem hp
    by_cases hic : i = c
    · subst hic
      obtain ⟨q, hq, hwq⟩ := hst.waitsForever hs.not_done hc hwp
      exact ⟨q, List.mem_of_getElem? hq, hwq⟩
    · rcases hst.of_other hic hc with hc' | ⟨q, hq, hc'⟩
      · exact ⟨p, List.mem_of_getElem? hc', hwp⟩
      · exact ⟨q, List.mem_of_getElem? hc', (waitsForever_of_woken hq).trans hwp⟩

lemma Forsaken.run {s t : State} (hs : Forsaken s) (h : ReflTransGen Next s t) : Forsaken t := by
  induction h with
  | refl => exact hs
  | tail _ hbc ih =>
    obtain ⟨i, hbc⟩ := hbc
    exact ih.step hbc

/-- Only the steps from three points are under the condition. -/
lemma Attended.of_pc {i : ℕ} {s : State} {p : Pc} (h : s.threads[i]? = some p)
    (hstop : p = .stopBody → s.tasks = [] ∨ ∀ p ∈ s.threads, p.waitsForever = false)
    (hexec : ∀ e, p = .execBody e → s.terminate = false ∨ ∀ p ∈ s.threads, p.waitsForever = false)
    (hwait : ∀ before, p = .waitBody false before → s.terminate = false ∨ s.tasks = []) :
    Attended i s := by
  have hpc : ∀ {p' : Pc}, s.threads[i]? = some p' → p = p' := fun h' =>
    Option.some.inj (h.symm.trans h')
  exact ⟨fun h' => hstop (hpc h'), fun e h' => hexec e (hpc h'), fun b h' => hwait b (hpc h')⟩

/-- A caller in the wait is still in it when threads are woken. -/
lemma exists_waitsForever {s : State} {ts : List Pc} {i : ℕ} {p q : Pc}
    (hmap : ts.map Pc.waitsForever = s.threads.map Pc.waitsForever) (h : ts[i]? = some p)
    (hp : p.waitsForever = false) (hex : ¬ ∀ p ∈ s.threads, p.waitsForever = false) :
    ∃ p ∈ ts.set i q, p.waitsForever = true := by
  push Not at hex
  obtain ⟨r, hr, hwr⟩ := hex
  have hold := (exists_mem_congr hmap).2 ⟨r, hr, Bool.eq_true_of_not_eq_false hwr⟩
  exact exists_mem_set h (fun hf => by rw [hp] at hf; cases hf) hold

/-- A step that does not meet the condition forsakes a caller. -/
lemma Step.forsaken_of_not_attended {i : ℕ} {s t : State} (hst : Step i s t)
    (hatt : ¬ Attended i s) : Forsaken t := by
  have hwoken : ∀ p q : Pc, p.woken = some q → q.waitsForever = p.waitsForever := fun p q =>
    waitsForever_of_woken
  cases hst with
  | stopSet h =>
    have hnot := fun hor => hatt (.of_pc h (fun _ => hor) (fun _ hf => by cases hf)
      fun _ hf => by cases hf)
    obtain ⟨hne, hwaits⟩ := not_or.1 hnot
    exact ⟨rfl, hne,
      exists_waitsForever (map_notifyAll hwoken _) (getElem?_notifyAll h) rfl hwaits⟩
  | @push e ts h hn =>
    have hnot := fun hor => hatt (.of_pc h (fun hf => by cases hf) (fun _ _ => hor)
      fun _ hf => by cases hf)
    obtain ⟨hterm, hwaits⟩ := not_or.1 hnot
    exact ⟨Bool.eq_true_of_not_eq_false hterm, by simp,
      exists_waitsForever (hn.map_eq hwoken) (hn.getElem?_of_not_blocked h rfl) rfl hwaits⟩
  | @waitBlock timed before h hne =>
    cases timed with
    | true =>
      exact absurd (.of_pc h (fun hf => by cases hf) (fun _ hf => by cases hf)
        fun _ hf => by cases hf) hatt
    | false =>
      have hnot := fun hor => hatt (.of_pc h (fun hf => by cases hf) (fun _ hf => by cases hf)
        fun _ _ => hor)
      obtain ⟨hterm, -⟩ := not_or.1 hnot
      exact ⟨Bool.eq_true_of_not_eq_false hterm, hne,
        _, List.mem_of_getElem? (getElem?_set_self_of_getElem? h _), rfl⟩
  | waitNone h hempty =>
    exact absurd (.of_pc h (fun hf => by cases hf) (fun _ hf => by cases hf)
      fun _ _ => Or.inr hempty) hatt
  | lock h hq | wake h hq =>
    refine absurd (Attended.of_pc h ?_ ?_ ?_) hatt
    · rintro rfl
      cases hq
    · rintro e rfl
      cases hq
    · rintro b rfl
      cases hq
  | call _ h | finish _ h =>
    exact absurd (.of_pc h (fun hf => by cases hf) (fun _ hf => by cases hf)
      fun _ hf => by cases hf) hatt
  | _ h =>
    exact absurd (.of_pc h (fun hf => by cases hf) (fun _ hf => by cases hf)
      fun _ hf => by cases hf) hatt

/-! ## The condition -/

lemma Stranded.forsaken {s : State} (h : Stranded s) : Forsaken s := by
  obtain ⟨c, before, hc⟩ := h.blocked
  exact ⟨h.stopped, h.not_done, _, List.mem_of_getElem? hc, rfl⟩

/-- **When `stop` strands nobody.**  In a run in which no step brings a caller that is in the
wait without a time limit, a queue that is not empty and `_terminate` together, no caller is
stranded; and a further step that does leaves a caller in the wait for ever. -/
theorem not_stranded_of_attended {s : State} (h : Reachable Init AttendedNext s) :
    ¬ Stranded s ∧ ∀ i t, Step i s t → ¬ Attended i s →
      ∀ u, ReflTransGen Next t u → Forsaken u := by
  have hnot : ¬ Forsaken s := by
    refine Reachable.invariant (I := fun s => ¬ Forsaken s) ?_ ?_ h
    · rintro s ⟨n, rfl⟩ hf
      exact Bool.false_ne_true hf.stopped
    · rintro s t - hs ⟨i, hst, hatt⟩ hf
      exact hs (hst.forsaken hatt hf)
  exact ⟨fun hs => hnot hs.forsaken, fun i t hst hatt u hrun =>
    (hst.forsaken_of_not_attended hatt).run hrun⟩

lemma Step.attendedNext {i : ℕ} {s t : State} (hst : Step i s t)
    (hwaits : ∀ p ∈ s.threads, p.waitsForever = false)
    (hdone : s.terminate = false ∨ s.tasks = []) : AttendedNext s t :=
  ⟨i, hst, fun _ => Or.inr hwaits, fun _ _ => Or.inr hwaits, fun _ _ => hdone⟩

/-- Client 0 has stopped a pool with no task in the queue, and client 1 has come to its first
test after that. -/
def emptyWait : State :=
  { State.fresh 2 with
    workers := [2]
    terminate := true
    mutex := some 1
    threads := [.stopScan, .waitBody false [], .loopTest] }

lemma emptyWait_reachable : Reachable Init AttendedNext emptyWait := by
  have h₀ : Reachable Init AttendedNext (State.fresh 2) := .of_init ⟨2, rfl⟩
  have h₁ := ((h₀.tail (Step.attendedNext (i := 0) (.call .start rfl) (by decide) (by decide))).tail
    (Step.attendedNext (i := 0) (.lock rfl rfl rfl) (by decide) (by decide))).tail
    (Step.attendedNext (i := 0) (.startSpawn rfl rfl) (by decide) (by decide))
  have h₂ := ((h₁.tail (Step.attendedNext (i := 0) (.call .stop rfl) (by decide) (by decide))).tail
    (Step.attendedNext (i := 0) (.lock rfl rfl rfl) (by decide) (by decide))).tail
    (Step.attendedNext (i := 0) (.stopSet rfl) (by decide) (by decide))
  exact (h₂.tail (Step.attendedNext (i := 1) (.call (.waitForAllDone false) rfl) (by decide)
    (by decide))).tail (Step.attendedNext (i := 1) (.lock rfl rfl rfl) (by decide) (by decide))

theorem not_stranded_emptyWait :
    ¬ Stranded emptyWait ∧ emptyWait.terminate = true ∧
      emptyWait.threads[1]? = some (.waitBody false []) :=
  ⟨(not_stranded_of_attended emptyWait_reachable).1, rfl, rfl⟩

/-- `stop` has returned; the task of `blockedCaller` was not taken, and client 1 still waits
for that. -/
def strandedCaller : State :=
  { blockedCaller with
    workers := []
    terminate := true
    threads := [.idle, .waitBlocked false [⟨0, 0⟩], .exited]
    joined := [2]
    deleted := [2] }

lemma strandedCaller_reach : Reach strandedCaller := by
  -- client 0 sets the flag, and everybody is woken
  have h₁ := ((blockedCaller_reach.tail ⟨0, .call .stop rfl⟩).tail ⟨0, .lock rfl rfl rfl⟩).tail
    ⟨0, .stopSet rfl⟩
  -- the worker leaves `run` without a look at the queue
  have h₂ := h₁.tail ⟨2, .loopExit rfl rfl⟩
  -- client 1 finds the task still in the queue
  have h₃ := (h₂.tail ⟨1, .lock rfl rfl rfl⟩).tail ⟨1, .waitAgain rfl (by decide)⟩
  have h₄ := ((h₃.tail ⟨0, .stopBegin rfl⟩).tail ⟨0, .stopIsJoinable rfl (by decide)⟩).tail
    ⟨0, .stopJoined rfl rfl⟩
  exact (((h₄.tail ⟨0, .stopDeleted rfl⟩).tail ⟨0, .stopLoopEnd rfl⟩).tail
    ⟨0, .lock rfl rfl rfl⟩).tail ⟨0, .stopCleared rfl⟩

theorem stranded_strandedCaller : Reach strandedCaller ∧ Stranded strandedCaller ∧
    ∀ p ∈ strandedCaller.threads, p.inStop = false := by
  have hforsaken : Forsaken strandedCaller := ⟨rfl, by decide, by decide⟩
  refine ⟨strandedCaller_reach, ⟨rfl, by decide, ⟨1, _, rfl⟩, by decide, fun t hrun => ?_⟩,
    by decide⟩
  exact (hforsaken.run hrun).not_done

end CppExample.ThreadPool
