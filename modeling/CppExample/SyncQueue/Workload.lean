/-
# Producers and consumers on a blocking queue

The threads of `condition_variable/demo1_sync_queue.cpp` and `demo2_sync_queue.cpp`: a thread
function makes a fixed list of calls of `Put` and `Take`, and `main` joins the threads.  Here there
are any number of threads, each with a list of its own, on a queue of either class.

A thread that is woken spuriously tests again and goes back to sleep, so a run can be as long as
there are such wake-ups.  Apart from them it is bounded by the number of calls.  Where nothing but a
spurious wake-up is possible, all threads have finished just when the numbers of calls suit the
queue: not more to take than to put, and not more to put than what is taken and `maxSize` more.
Then nothing was lost on the way, and the values of a producer have come through in its order.
-/
import CppExample.SyncQueue.Wakeup

namespace CppExample.SyncQueue
open Lib

variable {α : Type*}

/-- A call of a thread function. -/
inductive Call (α : Type*) where
  /-- `Put (x)`. -/
  | put (x : α)
  /-- `Take (x)`. -/
  | take
deriving DecidableEq, Repr

namespace Call

/-- The value that is put. -/
def value : Call α → Option α
  | put x => some x
  | take => none

def isTake : Call α → Bool
  | put _ => false
  | take => true

end Call

/-- `PutDatas` of the first demo. -/
def putDatas : List (Call ℕ) := (List.range 20).map .put

/-- `TakeDatas`. -/
def takeDatas : List (Call ℕ) := List.replicate 20 .take

/-- The values that some calls put. -/
def putsOf (calls : List (Call α)) : List α := calls.filterMap Call.value

/-- How many of some calls take. -/
def takesOf (calls : List (Call α)) : ℕ := calls.countP Call.isTake

@[simp] lemma putsOf_nil : putsOf ([] : List (Call α)) = [] := rfl

@[simp] lemma putsOf_put (x : α) (calls : List (Call α)) :
    putsOf (.put x :: calls) = x :: putsOf calls := rfl

@[simp] lemma putsOf_take (calls : List (Call α)) : putsOf (.take :: calls) = putsOf calls := rfl

@[simp] lemma putsOf_append (calls calls' : List (Call α)) :
    putsOf (calls ++ calls') = putsOf calls ++ putsOf calls' := List.filterMap_append

@[simp] lemma takesOf_nil : takesOf ([] : List (Call α)) = 0 := rfl

@[simp] lemma takesOf_put (x : α) (calls : List (Call α)) :
    takesOf (.put x :: calls) = takesOf calls := rfl

@[simp] lemma takesOf_take (calls : List (Call α)) :
    takesOf (.take :: calls) = takesOf calls + 1 := List.countP_cons_of_pos rfl

/-! ## The bookkeeping of calls -/

/-- Of the calls `jobs`, one list for each thread, `rest` has still to return, `puts` were put and
`takes` calls of `Take` have returned.  What a thread has put is in `puts` in its order. -/
structure Ledger (jobs rest : List (List (Call α))) (puts : List α) (takes : ℕ) : Prop where
  values : (puts : Multiset α) + total (fun l => (putsOf l : Multiset α)) rest
    = total (fun l => (putsOf l : Multiset α)) jobs
  count : takes + total takesOf rest = total takesOf jobs
  order : ∀ (i : ℕ) (job : List (Call α)), jobs[i]? = some job →
    ∃ done l, rest[i]? = some l ∧ job = done ++ l ∧ (putsOf done).Sublist puts
  length_eq : rest.length = jobs.length

section Ledger

variable {jobs rest : List (List (Call α))} {puts : List α} {takes i : ℕ} {x : α}
  {l : List (Call α)}

lemma Ledger.start (jobs : List (List (Call α))) : Ledger jobs jobs [] 0 :=
  ⟨zero_add _, zero_add _, fun _ job hjob => ⟨[], job, hjob, rfl, List.Sublist.refl _⟩, rfl⟩

/-- A call that returns goes from what is left to what is done, and everybody else's calls stay
where they are. -/
lemma Ledger.order_set (h : Ledger jobs rest puts takes) {k : Call α} {puts' : List α}
    (hi : rest[i]? = some (k :: l)) (hputs : puts' = puts ++ putsOf [k]) :
    ∀ (j : ℕ) (job : List (Call α)), jobs[j]? = some job →
      ∃ done l', (rest.set i l)[j]? = some l' ∧ job = done ++ l' ∧ (putsOf done).Sublist puts' := by
  intro j job hjob
  obtain ⟨done, l', hl', hdone, hsub⟩ := h.order j job hjob
  by_cases hij : i = j
  · subst hij
    obtain rfl : k :: l = l' := Option.some.inj (hi.symm.trans hl')
    refine ⟨done ++ [k], l, getElem?_set_self_of_getElem? hi l, by simp [hdone], ?_⟩
    rw [hputs, putsOf_append]
    exact hsub.append (List.Sublist.refl _)
  · refine ⟨done, l', by rwa [List.getElem?_set_ne hij], hdone, ?_⟩
    rw [hputs]
    exact hsub.trans (List.sublist_append_left _ _)

/-- A call of `Put` returns. -/
lemma Ledger.put (h : Ledger jobs rest puts takes) (hi : rest[i]? = some (.put x :: l)) :
    Ledger jobs (rest.set i l) (puts ++ [x]) takes := by
  refine ⟨?_, ?_, h.order_set hi rfl, by rw [List.length_set, h.length_eq]⟩
  · have hset := total_set (f := fun l => (putsOf l : Multiset α)) hi l
    rw [← h.values]
    simp only [putsOf_put, ← Multiset.cons_coe, ← Multiset.singleton_add] at hset
    rw [← Multiset.coe_add, Multiset.coe_singleton]
    have hcancel : ({x} : Multiset α) + total (fun l => (putsOf l : Multiset α)) (rest.set i l)
        = total (fun l => (putsOf l : Multiset α)) rest := by
      refine add_right_cancel (b := (putsOf l : Multiset α)) ?_
      rw [← hset]
      abel
    rw [add_assoc, hcancel]
  · have hset := total_set (f := takesOf) hi l
    rw [takesOf_put] at hset
    have := h.count
    omega

/-- A call of `Take` returns. -/
lemma Ledger.take (h : Ledger jobs rest puts takes) (hi : rest[i]? = some (.take :: l)) :
    Ledger jobs (rest.set i l) puts (takes + 1) := by
  refine ⟨?_, ?_, h.order_set hi (by simp), by rw [List.length_set, h.length_eq]⟩
  · have hset := total_set (f := fun l => (putsOf l : Multiset α)) hi l
    rw [putsOf_take] at hset
    rw [← h.values, add_right_cancel hset]
  · have hset := total_set (f := takesOf) hi l
    rw [takesOf_take] at hset
    have := h.count
    omega

/-- What a thread has still to do is the end of its list. -/
lemma Ledger.exists_suffix (h : Ledger jobs rest puts takes) (hl : l ∈ rest) :
    ∃ job ∈ jobs, ∃ done, job = done ++ l := by
  obtain ⟨i, hi⟩ := List.getElem?_of_mem hl
  have hlt : i < jobs.length := by
    rw [← h.length_eq]
    exact (List.getElem?_eq_some_iff.1 hi).1
  obtain ⟨done, l', hl', hdone, -⟩ := h.order i jobs[i] (List.getElem?_eq_getElem hlt)
  obtain rfl : l = l' := Option.some.inj (hi.symm.trans hl')
  exact ⟨jobs[i], List.getElem_mem hlt, done, hdone⟩

end Ledger

/-! ## The program -/

/-- The call that a thread is in. -/
def Pc.call : Pc α → List (Call α)
  | idle => []
  | putLock x | putTest x | putBlocked x | putWoken x | putPush x | putNotify x | putUnlock x =>
    [.put x]
  | takeLock | takeTest | takeBlocked | takeWoken | takeFront | takePop _ | takeNotify _
  | takeUnlock _ => [.take]

/-- Blocked on one of the condition variables. -/
def Pc.isBlocked (p : Pc α) : Bool := p.isTakeBlocked || p.isPutBlocked

/-- A queue, and the calls that its threads have still to make. -/
structure Program (α : Type*) where
  queue : State α
  todo : List (List (Call α))
deriving DecidableEq, Repr

/-- What happens: a thread goes on, or it is woken spuriously. -/
inductive Act where
  | run (i : ℕ)
  | wake (i : ℕ)
deriving DecidableEq, Repr

def Act.isRun : Act → Bool
  | run _ => true
  | wake _ => false

namespace Program

/-- The program when `main` has started its threads. -/
def start (jobs : List (List (Call α))) : Program α := ⟨State.fresh jobs.length, jobs⟩

/-- A step of the program.  A thread that is outside the queue makes its next call. -/
inductive Step (c : Class) : Act → Program α → Program α → Prop
  | put {w : Program α} {i : ℕ} {x : α} {rest : List (Call α)}
      (h : w.queue.threads[i]? = some .idle) (hl : w.todo[i]? = some (.put x :: rest)) :
      Step c (.run i) w
        ⟨{ w.queue with threads := w.queue.threads.set i (.putLock x) }, w.todo.set i rest⟩
  | take {w : Program α} {i : ℕ} {rest : List (Call α)}
      (h : w.queue.threads[i]? = some .idle) (hl : w.todo[i]? = some (.take :: rest)) :
      Step c (.run i) w
        ⟨{ w.queue with threads := w.queue.threads.set i .takeLock }, w.todo.set i rest⟩
  | run {w : Program α} {i : ℕ} {p : Pc α} {t : State α} (h : w.queue.threads[i]? = some p)
      (hidle : p ≠ .idle) (hb : p.isBlocked = false) (hst : SyncQueue.Step c i w.queue t) :
      Step c (.run i) w ⟨t, w.todo⟩
  | wake {w : Program α} {i : ℕ} {p : Pc α} {t : State α} (h : w.queue.threads[i]? = some p)
      (hb : p.isBlocked = true) (hst : SyncQueue.Step c i w.queue t) :
      Step c (.wake i) w ⟨t, w.todo⟩

/-- The calls that have not returned. -/
def rest (w : Program α) : List (List (Call α)) :=
  List.zipWith (· ++ ·) (w.queue.threads.map Pc.call) w.todo

lemma getElem?_rest {w : Program α} {i : ℕ} {p : Pc α} {l : List (Call α)}
    (hp : w.queue.threads[i]? = some p) (hl : w.todo[i]? = some l) :
    w.rest[i]? = some (p.call ++ l) := by
  rw [rest, List.getElem?_zipWith, List.getElem?_map, hp, hl]
  rfl

/-- A thread is at some point with some calls before it. -/
lemma exists_of_rest {w : Program α} {l : List (Call α)} (h : l ∈ w.rest) :
    ∃ (i : ℕ) (p : Pc α) (l' : List (Call α)), w.queue.threads[i]? = some p ∧
      w.todo[i]? = some l' ∧ l = p.call ++ l' := by
  obtain ⟨i, hi⟩ := List.getElem?_of_mem h
  obtain ⟨calls, l', hcalls, hl', rfl⟩ := List.getElem?_zipWith_eq_some.1 hi
  rw [List.getElem?_map, Option.map_eq_some_iff] at hcalls
  obtain ⟨p, hp, rfl⟩ := hcalls
  exact ⟨i, p, l', hp, hl', rfl⟩

end Program

/-! ## What a step does to the calls -/

section Calls

variable {c : Class} {i : ℕ} {s t : State α} {p q : Pc α}

lemma call_of_afterLock (h : p.afterLock c = some q) : q.call = p.call := by
  cases p <;> cases c <;> cases h <;> rfl

lemma call_of_wokenNotEmpty (h : p.wokenNotEmpty = some q) : q.call = p.call := by
  cases p <;> cases h
  rfl

lemma call_of_wokenNotFull (h : p.wokenNotFull = some q) : q.call = p.call := by
  cases p <;> cases h
  rfl

/-- A thread that is inside a call stays inside it, or the call returns. -/
lemma Step.calls (hst : Step c i s t) (hp : s.threads[i]? = some p) (hidle : p ≠ .idle) :
    (t.threads.map Pc.call = s.threads.map Pc.call ∧ t.shared.puts = s.shared.puts ∧
        t.shared.takes = s.shared.takes) ∨
      (∃ x, p = .putUnlock x ∧ t.threads = s.threads.set i .idle ∧
        t.shared.puts = s.shared.puts ++ [x] ∧ t.shared.takes = s.shared.takes) ∨
      (∃ x, p = .takeUnlock x ∧ t.threads = s.threads.set i .idle ∧
        t.shared.puts = s.shared.puts ∧ t.shared.takes = s.shared.takes ++ [x]) := by
  cases hst with
  | put x h | take h => exact absurd (Option.some.inj (hp.symm.trans h)) hidle
  | lock h hq => exact Or.inl ⟨map_set_of_eq h (call_of_afterLock hq), rfl, rfl⟩
  | wakePut h hq => exact Or.inl ⟨map_set_of_eq h (call_of_wokenNotFull hq), rfl, rfl⟩
  | wakeTake h hq => exact Or.inl ⟨map_set_of_eq h (call_of_wokenNotEmpty hq), rfl, rfl⟩
  | putFull h | putRoom h | push h | takeEmpty h | takeSome h | front h =>
    exact Or.inl ⟨map_set_of_eq h rfl, rfl, rfl⟩
  | pop h => exact Or.inl ⟨map_set_of_eq h (by cases c <;> rfl), rfl, rfl⟩
  | frontFault | popFault => exact Or.inl ⟨rfl, rfl, rfl⟩
  | @notifyNotEmpty x ts h hn =>
    have hset := map_set_of_eq (f := Pc.call) (b := .putUnlock x)
      (hn.getElem?_of_not_blocked h rfl) rfl
    exact Or.inl ⟨hset.trans (hn.map_eq fun _ _ => call_of_wokenNotEmpty), rfl, rfl⟩
  | @notifyNotFull x ts h hn =>
    have hset := map_set_of_eq (f := Pc.call) (b := .takeUnlock x)
      (hn.getElem?_of_not_blocked h rfl) rfl
    exact Or.inl ⟨hset.trans (hn.map_eq fun _ _ => call_of_wokenNotFull), rfl, rfl⟩
  | putReturn h =>
    exact Or.inr (Or.inl ⟨_, Option.some.inj (hp.symm.trans h), rfl, rfl, rfl⟩)
  | takeReturn h =>
    exact Or.inr (Or.inr ⟨_, Option.some.inj (hp.symm.trans h), rfl, rfl, rfl⟩)

end Calls

namespace Program

variable {c : Class} {a : Act} {w w' : Program α} {jobs : List (List (Call α))}

/-- Every call is still to return, or its value is where it belongs. -/
structure Books (jobs : List (List (Call α))) (w : Program α) : Prop where
  ledger : Ledger jobs w.rest w.queue.shared.puts w.queue.shared.takes.length
  paired : w.todo.length = w.queue.threads.length

lemma Books.start (jobs : List (List (Call α))) : Books jobs (Program.start jobs) := by
  have hrest : (Program.start jobs).rest = jobs := by
    refine List.ext_getElem? fun i => ?_
    simp only [rest, Program.start, State.fresh, List.map_replicate, List.getElem?_zipWith,
      List.getElem?_replicate]
    by_cases hi : i < jobs.length
    · rw [if_pos hi, List.getElem?_eq_getElem hi]
      rfl
    · rw [if_neg hi, List.getElem?_eq_none (by omega)]
  refine ⟨?_, by simp [Program.start, State.fresh]⟩
  rw [hrest]
  exact Ledger.start jobs

/-- A step inside the queue. -/
lemma Books.queue (h : Books jobs w) {i : ℕ} {p : Pc α} {t : State α}
    (hp : w.queue.threads[i]? = some p) (hidle : p ≠ .idle) (hst : SyncQueue.Step c i w.queue t) :
    Books jobs ⟨t, w.todo⟩ := by
  have hlt : i < w.todo.length := by
    rw [h.paired]
    exact (List.getElem?_eq_some_iff.1 hp).1
  have hl : w.todo[i]? = some w.todo[i] := List.getElem?_eq_getElem hlt
  have hrest := getElem?_rest hp hl
  have hreturn : (⟨t, w.todo⟩ : Program α).queue.threads = w.queue.threads.set i .idle →
      (⟨t, w.todo⟩ : Program α).rest = w.rest.set i w.todo[i] := by
    intro ht
    have hset := zipWith_set (· ++ ·) (w.queue.threads.map Pc.call) w.todo i [] w.todo[i]
    rw [set_of_getElem? hl] at hset
    rw [rest, ht, List.map_set]
    exact hset
  rcases hst.calls hp hidle with ⟨hcalls, hputs, htakes⟩ | ⟨x, rfl, ht, hputs, htakes⟩ |
    ⟨x, rfl, ht, hputs, htakes⟩
  · refine ⟨?_, ?_⟩
    · rw [rest, hcalls, hputs, htakes]
      exact h.ledger
    · have := congrArg List.length hcalls
      rw [List.length_map, List.length_map] at this
      exact h.paired.trans this.symm
  · refine ⟨?_, by rw [ht, List.length_set, h.paired]⟩
    rw [hreturn ht, hputs, htakes]
    exact h.ledger.put hrest
  · refine ⟨?_, by rw [ht, List.length_set, h.paired]⟩
    rw [hreturn ht, hputs, htakes, List.length_append]
    exact h.ledger.take hrest

/-- A thread makes its next call. -/
lemma Books.call (h : Books jobs w) {i : ℕ} {k : Call α} {l : List (Call α)} {q : Pc α}
    (hp : w.queue.threads[i]? = some .idle) (hl : w.todo[i]? = some (k :: l)) (hq : q.call = [k]) :
    Books jobs ⟨{ w.queue with threads := w.queue.threads.set i q }, w.todo.set i l⟩ := by
  refine ⟨?_, by simp [h.paired]⟩
  have hrest : (⟨{ w.queue with threads := w.queue.threads.set i q }, w.todo.set i l⟩ :
      Program α).rest = w.rest := by
    rw [rest, List.map_set, zipWith_set, hq]
    exact set_of_getElem? (getElem?_rest hp hl)
  rw [hrest]
  exact h.ledger

lemma Step.books (hst : Step c a w w') (h : Books jobs w) : Books jobs w' := by
  cases hst with
  | put hp hl => exact h.call hp hl rfl
  | take hp hl => exact h.call hp hl rfl
  | run hp hidle hb hst => exact h.queue hp hidle hst
  | wake hp hb hst =>
    refine h.queue hp ?_ hst
    rintro rfl
    cases hb

/-- The queue goes through one of its own steps. -/
lemma Step.next (hst : Step c a w w') : Next c w.queue w'.queue := by
  cases hst with
  | put hp hl => exact ⟨_, .put _ hp⟩
  | take hp hl => exact ⟨_, .take hp⟩
  | run hp hidle hb hst => exact ⟨_, hst⟩
  | wake hp hb hst => exact ⟨_, hst⟩

end Program

/-! ## Every run is bounded -/

/-- How many steps a thread can still make in its call, if it is not woken again. -/
def Pc.work : Pc α → ℕ
  | idle => 0
  | putLock _ | putWoken _ => 7
  | putTest _ => 6
  | putBlocked _ | putPush _ => 5
  | putNotify _ => 4
  | putUnlock _ => 1
  | takeLock | takeWoken => 8
  | takeTest => 7
  | takeBlocked | takeFront => 6
  | takePop _ => 5
  | takeNotify _ => 4
  | takeUnlock _ => 1

/-- The most steps that a call takes. -/
def Call.work : Call α → ℕ
  | put _ => 8
  | take => 9

/-- The steps for some calls. -/
def workOf (calls : List (Call α)) : ℕ := (calls.map Call.work).sum

lemma workOf_cons (k : Call α) (calls : List (Call α)) :
    workOf (k :: calls) = k.work + workOf calls := by
  rw [workOf, List.map_cons, List.sum_cons, workOf]

section Work

variable {c : Class} {i : ℕ} {s t : State α} {p q : Pc α}

lemma work_of_afterLock (h : p.afterLock c = some q) : q.work + 1 ≤ p.work := by
  cases p <;> cases c <;> cases h <;> simp [Pc.work]

lemma work_of_wokenNotEmpty (h : p.wokenNotEmpty = some q) : q.work = p.work + 2 := by
  cases p <;> cases h
  rfl

lemma work_of_wokenNotFull (h : p.wokenNotFull = some q) : q.work = p.work + 2 := by
  cases p <;> cases h
  rfl

lemma isBlocked_of_afterLock (h : p.afterLock c = some q) : p.isBlocked = false := by
  cases p <;> cases c <;> cases h <;> rfl

lemma isBlocked_of_wokenNotEmpty (h : p.wokenNotEmpty = some q) : p.isBlocked = true := by
  cases p <;> cases h
  rfl

lemma isBlocked_of_wokenNotFull (h : p.wokenNotFull = some q) : p.isBlocked = true := by
  cases p <;> cases h
  rfl

/-- One thread moves to a point that is nearer to the end of its call. -/
lemma work_set {ts : List (Pc α)} (h : ts[i]? = some p) {k : ℕ} (hq : q.work + k ≤ p.work) :
    total Pc.work (ts.set i q) + k ≤ total Pc.work ts := by
  have hset := total_set (f := Pc.work) h q
  omega

/-- A step of a thread that is neither outside nor blocked uses up work; a notification costs
less than the statement that makes it. -/
lemma Step.work (hinv : Inv c s) (hst : Step c i s t) (hp : s.threads[i]? = some p)
    (hidle : p ≠ .idle) (hb : p.isBlocked = false) :
    total Pc.work t.threads + 1 ≤ total Pc.work s.threads := by
  cases hst with
  | put x h | take h => exact absurd (Option.some.inj (hp.symm.trans h)) hidle
  | lock h hq => exact work_set h (work_of_afterLock hq)
  | wakePut h hq =>
    obtain rfl := Option.some.inj (hp.symm.trans h)
    rw [isBlocked_of_wokenNotFull hq] at hb
    cases hb
  | wakeTake h hq =>
    obtain rfl := Option.some.inj (hp.symm.trans h)
    rw [isBlocked_of_wokenNotEmpty hq] at hb
    cases hb
  | putFull h | putRoom h | push h | putReturn h | takeEmpty h | takeSome h | front h
  | takeReturn h => exact work_set h (by simp [Pc.work])
  | pop h => exact work_set h (by cases c <;> simp [Pc.work, Pc.afterPop])
  | frontFault h hq => exact absurd hq (hinv.at_inside h rfl).2.2
  | popFault h hq =>
    have hhead := (hinv.at_inside h rfl).2.2
    rw [hq] at hhead
    cases hhead
  | @notifyNotEmpty x ts h hn =>
    have hwake := hn.total_le (f := Pc.work) fun _ _ hq => (work_of_wokenNotEmpty hq).le
    have hset := work_set (q := .putUnlock x) (hn.getElem?_of_not_blocked h rfl)
      (show Pc.work (.putUnlock x) + 3 ≤ 4 by simp [Pc.work])
    dsimp only
    omega
  | @notifyNotFull x ts h hn =>
    have hwake := hn.total_le (f := Pc.work) fun _ _ hq => (work_of_wokenNotFull hq).le
    have hset := work_set (q := .takeUnlock x) (hn.getElem?_of_not_blocked h rfl)
      (show Pc.work (.takeUnlock x) + 3 ≤ 4 by simp [Pc.work])
    dsimp only
    omega

/-- All that a blocked thread can do is to be woken. -/
lemma Step.work_of_isBlocked (hst : Step c i s t) (hp : s.threads[i]? = some p)
    (hb : p.isBlocked = true) : total Pc.work t.threads = total Pc.work s.threads + 2 := by
  have key : ∀ {q : Pc α}, q.work = p.work + 2 →
      total Pc.work (s.threads.set i q) = total Pc.work s.threads + 2 := by
    intro q hq
    have hset := total_set (f := Pc.work) hp q
    omega
  cases hst with
  | wakePut h hq =>
    obtain rfl := Option.some.inj (hp.symm.trans h)
    exact key (work_of_wokenNotFull hq)
  | wakeTake h hq =>
    obtain rfl := Option.some.inj (hp.symm.trans h)
    exact key (work_of_wokenNotEmpty hq)
  | lock h hq =>
    obtain rfl := Option.some.inj (hp.symm.trans h)
    rw [isBlocked_of_afterLock hq] at hb
    cases hb
  | put x h | take h | putFull h | putRoom h | push h | notifyNotEmpty h | putReturn h
  | takeEmpty h | takeSome h | front h | frontFault h | pop h | popFault h | notifyNotFull h
  | takeReturn h =>
    obtain rfl := Option.some.inj (hp.symm.trans h)
    cases hb

end Work

namespace Program

variable {c : Class} {a : Act} {w w' : Program α} {jobs : List (List (Call α))} {acts : List Act}

/-- The steps that are left when nobody is woken spuriously. -/
def work (w : Program α) : ℕ := total Pc.work w.queue.threads + total workOf w.todo

lemma work_call {i : ℕ} {k : Call α} {l : List (Call α)} {q : Pc α}
    (hp : w.queue.threads[i]? = some .idle) (hl : w.todo[i]? = some (k :: l))
    (hq : q.work + 1 ≤ k.work) :
    work ⟨{ w.queue with threads := w.queue.threads.set i q }, w.todo.set i l⟩ + 1 ≤ w.work := by
  have hthreads := total_set (f := Pc.work) hp q
  have htodo := total_set (f := workOf) hl l
  have hidle : Pc.work (.idle : Pc α) = 0 := rfl
  rw [workOf_cons] at htodo
  simp only [work]
  omega

lemma Step.work_of_run (hinv : Inv c w.queue) (hst : Step c a w w') (ha : a.isRun = true) :
    w'.work + 1 ≤ w.work := by
  cases hst with
  | put hp hl => exact work_call hp hl (by simp [Pc.work, Call.work])
  | take hp hl => exact work_call hp hl (by simp [Pc.work, Call.work])
  | run hp hidle hb hst =>
    have := hst.work hinv hp hidle hb
    simp only [work]
    omega
  | wake => cases ha

lemma Step.work_of_wake (hst : Step c a w w') (ha : a.isRun = false) : w'.work ≤ w.work + 2 := by
  cases hst with
  | put | take | run => cases ha
  | wake hp hb hst =>
    have := hst.work_of_isBlocked hp hb
    simp only [work]
    omega

/-- What holds in every run of the program. -/
structure Good (c : Class) (jobs : List (List (Call α))) (w : Program α) : Prop where
  reach : Reach c w.queue
  books : Books jobs w

lemma Step.good (hst : Step c a w w') (h : Good c jobs w) : Good c jobs w' :=
  ⟨h.reach.tail hst.next, hst.books h.books⟩

lemma good_start (c : Class) (jobs : List (List (Call α))) : Good c jobs (start jobs) :=
  ⟨.of_init ⟨_, rfl⟩, Books.start jobs⟩

lemma good_of_trace (h : Trace (Step c) (start jobs) acts w) : Good c jobs w :=
  h.invariant (fun _ _ _ hs hst => hst.good hs) (good_start c jobs)

lemma work_of_trace (hvalid : c.Valid) (h : Trace (Step c) (start jobs) acts w) :
    w.work + acts.countP Act.isRun ≤ (start jobs).work + 2 * acts.countP (fun a => !a.isRun) :=
  h.add_countP_le (I := Good c jobs) (fun _ _ _ hs hst => hst.good hs)
    (fun _ _ _ hs hst ha => hst.work_of_run (hs.reach.inv hvalid) ha)
    (fun _ _ _ _ hst ha => hst.work_of_wake ha) (good_start c jobs)

end Program

end CppExample.SyncQueue
