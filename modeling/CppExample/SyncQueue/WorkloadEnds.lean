/-
# Where the producers and consumers stop

A run of `CppExample.SyncQueue.Workload` in which nothing but a spurious wake-up is possible any
more: every thread has finished or is blocked, and nobody is on the way to take or to put.  By what
is known of blocked threads, a blocked consumer has an empty queue before it and a blocked producer
a full one, so that not both can be blocked; and the numbers of calls tell which of the two it is.
-/
import CppExample.SyncQueue.Workload

namespace CppExample.SyncQueue
open Lib

variable {α : Type*}

/-! ## Where a run stops -/

/-- In `SimpleSyncQueue` nobody waits for a place. -/
def Pc.waitsForPlace : Pc α → Bool
  | putTest _ | putBlocked _ | putWoken _ => true
  | _ => false

/-- A thread waits for a place only where the class has a bound. -/
def Roomy (c : Class) (s : State α) : Prop :=
  c = .simpleSyncQueue → ∀ p ∈ s.threads, p.waitsForPlace = false

section Roomy

variable {c : Class} {i : ℕ} {s t : State α} {p q : Pc α}

lemma waitsForPlace_of_wokenNotEmpty (h : p.wokenNotEmpty = some q) :
    q.waitsForPlace = false := by
  cases p <;> cases h
  rfl

lemma waitsForPlace_of_wokenNotFull (h : p.wokenNotFull = some q) : p.waitsForPlace = true := by
  cases p <;> cases h
  rfl

lemma waitsForPlace_of_afterLock (hp : p.waitsForPlace = false)
    (h : p.afterLock .simpleSyncQueue = some q) : q.waitsForPlace = false := by
  cases p <;> cases h <;> first | rfl | exact hp

lemma Step.roomy (hst : Step c i s t) (hs : Roomy c s) : Roomy c t := by
  intro hc
  have hall := hs hc
  have hmove : ∀ {q : Pc α}, q.waitsForPlace = false →
      ∀ p ∈ s.threads.set i q, p.waitsForPlace = false := fun hq => forall_mem_set hall i hq
  cases hst with
  | lock h hq =>
    subst hc
    exact hmove (waitsForPlace_of_afterLock (hall _ (List.mem_of_getElem? h)) hq)
  | wakePut h hq =>
    have hp := hall _ (List.mem_of_getElem? h)
    rw [waitsForPlace_of_wokenNotFull hq] at hp
    cases hp
  | wakeTake h hq => exact hmove (waitsForPlace_of_wokenNotEmpty hq)
  | putFull h hc' | putRoom h hc' =>
    rw [hc] at hc'
    cases hc'
  | notifyNotEmpty h hn =>
    exact forall_mem_set (hn.forall_mem (fun _ _ hq _ => waitsForPlace_of_wokenNotEmpty hq) hall) i
      rfl
  | notifyNotFull h hn =>
    refine forall_mem_set (hn.forall_mem (fun _ _ hq hp => ?_) hall) i rfl
    rw [waitsForPlace_of_wokenNotFull hq] at hp
    cases hp
  | frontFault | popFault => exact hall
  | pop => exact hmove (by cases c <;> rfl)
  | put | take | push | putReturn | takeEmpty | takeSome | front | takeReturn => exact hmove rfl

lemma Reach.roomy (h : Reach c s) : Roomy c s := by
  refine Reachable.invariant ?_ ?_ h
  · rintro s ⟨n, rfl⟩ - p hp
    rw [(List.mem_replicate.1 hp).2]
    rfl
  · rintro s t - hs ⟨i, hst⟩
    exact hst.roomy hs

/-- The thread that holds the mutex can go on. -/
lemma exists_step_of_inside (hs : Roomy c s) (hp : s.threads[i]? = some p)
    (hin : p.inside = true) : ∃ t, Step c i s t := by
  cases p with
  | putTest x =>
    cases c with
    | syncQueue maxSize =>
      cases hf : s.shared.isFull maxSize with
      | false => exact ⟨_, .putRoom hp rfl hf⟩
      | true => exact ⟨_, .putFull hp rfl hf⟩
    | simpleSyncQueue =>
      have hfalse := hs rfl _ (List.mem_of_getElem? hp)
      cases hfalse
  | putPush x => exact ⟨_, .push hp⟩
  | putNotify x =>
    obtain ⟨ts, hn⟩ := NotifyOne.exists_result Pc.wokenNotEmpty s.threads
    exact ⟨_, .notifyNotEmpty hp hn⟩
  | putUnlock x => exact ⟨_, .putReturn hp⟩
  | takeTest =>
    cases he : s.shared.isEmpty with
    | false => exact ⟨_, .takeSome hp he⟩
    | true => exact ⟨_, .takeEmpty hp he⟩
  | takeFront =>
    cases hq : s.shared.queue with
    | nil => exact ⟨_, .frontFault hp hq⟩
    | cons x rest => exact ⟨_, .front hp hq⟩
  | takePop x =>
    cases hq : s.shared.queue with
    | nil => exact ⟨_, .popFault hp hq⟩
    | cons y rest => exact ⟨_, .pop hp hq⟩
  | takeNotify x =>
    obtain ⟨ts, hn⟩ := NotifyOne.exists_result Pc.wokenNotFull s.threads
    exact ⟨_, .notifyNotFull hp hn⟩
  | takeUnlock x => exact ⟨_, .takeReturn hp⟩
  | idle | putLock x | putBlocked x | putWoken x | takeLock | takeBlocked | takeWoken => cases hin

/-- A thread that neither is outside nor blocked nor inside waits for the mutex. -/
lemma exists_afterLock (c : Class) (hidle : p ≠ .idle) (hb : p.isBlocked = false)
    (hin : p.inside = false) : ∃ q, p.afterLock c = some q := by
  cases p with
  | idle => exact absurd rfl hidle
  | putLock x => cases c <;> exact ⟨_, rfl⟩
  | putWoken x | takeLock | takeWoken => exact ⟨_, rfl⟩
  | putBlocked x | takeBlocked => cases hb
  | _ => cases hin

end Roomy

namespace Program

variable {c : Class} {w : Program α} {jobs : List (List (Call α))} {acts : List Act}

/-- Nothing can happen but spurious wake-ups. -/
def Stopped (c : Class) (w : Program α) : Prop := ∀ i w', ¬ Step c (.run i) w w'

/-- All threads have returned from their functions, and `main` from the joins. -/
structure Finished (w : Program α) : Prop where
  idle : ∀ p ∈ w.queue.threads, p = .idle
  todo : ∀ l ∈ w.todo, l = []

lemma not_inside_of_idle_or_blocked {p : Pc α} (h : p = .idle ∨ p.isBlocked = true) :
    p.inside = false := by
  rcases h with rfl | h
  · rfl
  · cases p <;> first | rfl | cases h

/-- Where a run stops, nobody is on the way: the threads are blocked, or have finished. -/
lemma Stopped.idle_or_blocked (h : Stopped c w) (hinv : Inv c w.queue) (hroom : Roomy c w.queue)
    {p : Pc α} (hp : p ∈ w.queue.threads) : p = .idle ∨ p.isBlocked = true := by
  by_contra hcon
  push Not at hcon
  obtain ⟨hidle, hb⟩ := hcon
  have hfree : w.queue.mutex = none := by
    cases hm : w.queue.mutex with
    | none => rfl
    | some k =>
      obtain ⟨q, hq, -⟩ := hinv.held k hm
      have hin := (hinv.excl k q hq).2 hm
      obtain ⟨t, hst⟩ := exists_step_of_inside hroom hq hin
      refine absurd (.run hq ?_ ?_ hst) (h k ⟨t, w.todo⟩)
      · rintro rfl
        cases hin
      · cases hqb : q.isBlocked with
        | false => rfl
        | true =>
          rw [not_inside_of_idle_or_blocked (Or.inr hqb)] at hin
          cases hin
  obtain ⟨i, hi⟩ := List.getElem?_of_mem hp
  have hb : p.isBlocked = false := by simpa using hb
  obtain ⟨q, hq⟩ := exists_afterLock c hidle hb (hinv.not_inside hfree hp)
  exact h i _ (.run hi hidle hb (.lock hi hq hfree))

lemma Stopped.todo_eq_nil (h : Stopped c w) {i : ℕ} {l : List (Call α)}
    (hp : w.queue.threads[i]? = some .idle) (hl : w.todo[i]? = some l) : l = [] := by
  cases l with
  | nil => rfl
  | cons k l =>
    cases k with
    | put x => exact absurd (.put hp hl) (h i _)
    | take => exact absurd (.take hp hl) (h i _)

end Program

/-! ## Which workloads finish -/

/-- A thread function that only puts or only takes. -/
def OneRole (job : List (Call α)) : Prop := putsOf job = [] ∨ takesOf job = 0

/-- How many values the threads put. -/
def putCount (jobs : List (List (Call α))) : ℕ := total (fun l => (putsOf l).length) jobs

/-- How many they take. -/
def takeCount (jobs : List (List (Call α))) : ℕ := total takesOf jobs

/-- Nobody has to take what is never put, or to put what finds no place. -/
def Class.Suits (c : Class) (puts takes : ℕ) : Prop :=
  takes ≤ puts ∧ ∀ maxSize, c = .syncQueue maxSize → (puts : ℤ) ≤ takes + maxSize

lemma OneRole.of_append {done l : List (Call α)} (h : OneRole (done ++ l)) : OneRole l := by
  rcases h with h | h
  · rw [putsOf_append, List.append_eq_nil_iff] at h
    exact Or.inl h.2
  · rw [takesOf, List.countP_append] at h
    exact Or.inr (Nat.add_eq_zero_iff.1 h).2

lemma workOf_eq (calls : List (Call α)) :
    workOf calls = 8 * (putsOf calls).length + 9 * takesOf calls := by
  induction calls with
  | nil => rfl
  | cons k calls ih =>
    rw [workOf_cons, ih]
    cases k with
    | put x =>
      rw [putsOf_put, takesOf_put, List.length_cons, Call.work]
      omega
    | take =>
      rw [putsOf_take, takesOf_take, Call.work]
      omega

lemma total_workOf (jobs : List (List (Call α))) :
    total workOf jobs = 8 * putCount jobs + 9 * takeCount jobs := by
  induction jobs with
  | nil => rfl
  | cons job jobs ih =>
    simp only [putCount, takeCount] at ih ⊢
    rw [total_cons, total_cons, total_cons, ih, workOf_eq]
    omega

lemma total_putsOf (jobs : List (List (Call α))) :
    total (fun l => (putsOf l : Multiset α)) jobs = (jobs.flatMap putsOf : Multiset α) := by
  induction jobs with
  | nil => rfl
  | cons job jobs ih => rw [total_cons, ih, List.flatMap_cons, Multiset.coe_add]

lemma Ledger.putCount_eq {jobs rest : List (List (Call α))} {puts : List α} {takes : ℕ}
    (h : Ledger jobs rest puts takes) : puts.length + putCount rest = putCount jobs := by
  have hcard := congrArg Multiset.card h.values
  rw [Multiset.card_add, card_total, card_total] at hcard
  exact hcard

lemma putCount_eq_zero {rest : List (List (Call α))} (h : ∀ l ∈ rest, putsOf l = []) :
    putCount rest = 0 := total_eq_zero fun l hl => by rw [h l hl, List.length_nil]

namespace Program

variable {c : Class} {w : Program α} {jobs : List (List (Call α))} {acts : List Act}

/-- What a thread has still to do where a run stops. -/
lemma Stopped.rest_cases (h : Stopped c w) (hinv : Inv c w.queue) (hroom : Roomy c w.queue)
    {l : List (Call α)} (hl : l ∈ w.rest) :
    l = [] ∨ (.takeBlocked ∈ w.queue.threads ∧ ∃ l', l = .take :: l') ∨
      ∃ x, .putBlocked x ∈ w.queue.threads ∧ ∃ l', l = .put x :: l' := by
  obtain ⟨i, p, l', hp, hl', rfl⟩ := exists_of_rest hl
  have hmem := List.mem_of_getElem? hp
  rcases h.idle_or_blocked hinv hroom hmem with rfl | hb
  · exact Or.inl (h.todo_eq_nil hp hl')
  · cases p with
    | takeBlocked => exact Or.inr (Or.inl ⟨hmem, l', rfl⟩)
    | putBlocked x => exact Or.inr (Or.inr ⟨x, hmem, l', rfl⟩)
    | _ => cases hb

/-- A thread that is in a call has not finished its list. -/
lemma Books.exists_rest (h : Books jobs w) {p : Pc α} (hp : p ∈ w.queue.threads) :
    ∃ l', p.call ++ l' ∈ w.rest := by
  obtain ⟨i, hi⟩ := List.getElem?_of_mem hp
  have hlt : i < w.todo.length := by
    rw [h.paired]
    exact (List.getElem?_eq_some_iff.1 hi).1
  exact ⟨w.todo[i], List.mem_of_getElem? (getElem?_rest hi (List.getElem?_eq_getElem hlt))⟩

/-- Where nobody is inside, the mutex is free. -/
lemma free_of_outside (hinv : Inv c w.queue)
    (hout : ∀ p ∈ w.queue.threads, p = .idle ∨ p.isBlocked = true) : w.queue.mutex = none := by
  cases hm : w.queue.mutex with
  | none => rfl
  | some k =>
    obtain ⟨q, hq, -⟩ := hinv.held k hm
    have hin := (hinv.excl k q hq).2 hm
    rw [not_inside_of_idle_or_blocked (hout q (List.mem_of_getElem? hq))] at hin
    cases hin

/-- With the mutex free, nothing is between the queue and what was put and taken. -/
lemma exchanged_of_free (hinv : Inv c w.queue) (hm : w.queue.mutex = none) :
    w.queue.shared.takes ++ w.queue.shared.queue = w.queue.shared.puts ∧
      ∀ maxSize, c = .syncQueue maxSize → (w.queue.shared.queue.length : ℤ) ≤ maxSize := by
  have hrest := hinv.free hm
  refine ⟨by simpa using hrest.fifo, fun maxSize hc => ?_⟩
  have := hrest.fits maxSize hc
  omega

/-- Nobody is on the way to take or to put. -/
lemma credits_of_outside (hout : ∀ p ∈ w.queue.threads, p = .idle ∨ p.isBlocked = true) :
    total Pc.takeCredit w.queue.threads = 0 ∧ total Pc.putCredit w.queue.threads = 0 := by
  have hzero : ∀ p ∈ w.queue.threads, p.takeCredit = 0 ∧ p.putCredit = 0 := by
    intro p hp
    rcases hout p hp with rfl | hb
    · exact ⟨rfl, rfl⟩
    · cases p <;> first | exact ⟨rfl, rfl⟩ | cases hb
  exact ⟨total_eq_zero fun p hp => (hzero p hp).1, total_eq_zero fun p hp => (hzero p hp).2⟩

/-- Where a run stops with a consumer blocked, the queue is empty. -/
lemma queue_eq_nil (hreach : Reach c w.queue)
    (hout : ∀ p ∈ w.queue.threads, p = .idle ∨ p.isBlocked = true)
    (hb : .takeBlocked ∈ w.queue.threads) : w.queue.shared.queue = [] := by
  have hcovered := hreach.takesCovered ⟨_, hb, rfl⟩
  rw [(credits_of_outside hout).1] at hcovered
  exact List.length_eq_zero_iff.1 (by omega)

/-- Where it stops with a producer blocked, the queue is full. -/
lemma maxSize_le (hreach : Reach c w.queue) (hvalid : c.Valid)
    (hout : ∀ p ∈ w.queue.threads, p = .idle ∨ p.isBlocked = true) {x : α}
    (hb : .putBlocked x ∈ w.queue.threads) :
    ∃ maxSize, c = .syncQueue maxSize ∧ maxSize ≤ w.queue.shared.queue.length := by
  cases c with
  | simpleSyncQueue =>
    have hfalse := hreach.roomy rfl _ hb
    cases hfalse
  | syncQueue maxSize =>
    have hcovered := hreach.putsCovered hvalid ⟨_, hb, rfl⟩
    rw [(credits_of_outside hout).2] at hcovered
    exact ⟨maxSize, rfl, by omega⟩

/-- Not both can be blocked. -/
lemma not_putBlocked_of_takeBlocked (hreach : Reach c w.queue) (hvalid : c.Valid)
    (hout : ∀ p ∈ w.queue.threads, p = .idle ∨ p.isBlocked = true)
    (htake : .takeBlocked ∈ w.queue.threads) (x : α) : .putBlocked x ∉ w.queue.threads := by
  intro hput
  obtain ⟨maxSize, rfl, hle⟩ := maxSize_le hreach hvalid hout hput
  rw [queue_eq_nil hreach hout htake] at hle
  have hpos : 1 ≤ maxSize := hvalid.1
  simp only [List.length_nil] at hle
  omega

/-- A run that stops with a consumer blocked had too much to take. -/
lemma Stopped.lt_takeCount (h : Stopped c w) (hvalid : c.Valid) (hgood : Good c jobs w)
    (hrole : ∀ job ∈ jobs, OneRole job) (hb : .takeBlocked ∈ w.queue.threads) :
    putCount jobs < takeCount jobs := by
  have hinv := hgood.reach.inv hvalid
  have hroom := hgood.reach.roomy
  have hout := fun p => h.idle_or_blocked hinv hroom (p := p)
  have hnone : ∀ l ∈ w.rest, putsOf l = [] := by
    intro l hl
    rcases h.rest_cases hinv hroom hl with rfl | ⟨-, l', rfl⟩ | ⟨x, hput, -⟩
    · rfl
    · obtain ⟨job, hjob, done, rfl⟩ := hgood.books.ledger.exists_suffix hl
      rcases (hrole _ hjob).of_append with hputs | htakes
      · exact hputs
      · rw [takesOf_take] at htakes
        omega
    · exact absurd hput (not_putBlocked_of_takeBlocked hgood.reach hvalid hout hb x)
  have hsome : 1 ≤ takeCount w.rest := by
    obtain ⟨l', hl'⟩ := hgood.books.exists_rest hb
    refine le_trans ?_ (le_total_of_mem (f := takesOf) hl')
    rw [show Pc.takeBlocked.call ++ l' = .take :: l' from rfl, takesOf_take]
    exact Nat.le_add_left 1 (takesOf l')
  have hfifo := (exchanged_of_free hinv (free_of_outside hinv hout)).1
  rw [queue_eq_nil hgood.reach hout hb, List.append_nil] at hfifo
  have hputs := hgood.books.ledger.putCount_eq
  rw [putCount_eq_zero hnone, ← hfifo] at hputs
  have htakes := hgood.books.ledger.count
  simp only [takeCount] at hsome ⊢
  omega

/-- A run that stops with a producer blocked had too much to put. -/
lemma Stopped.lt_putCount (h : Stopped c w) (hvalid : c.Valid) (hgood : Good c jobs w)
    (hrole : ∀ job ∈ jobs, OneRole job) {x : α} (hb : .putBlocked x ∈ w.queue.threads) :
    ∃ maxSize, c = .syncQueue maxSize ∧ takeCount jobs + maxSize < putCount jobs := by
  have hinv := hgood.reach.inv hvalid
  have hroom := hgood.reach.roomy
  have hout := fun p => h.idle_or_blocked hinv hroom (p := p)
  obtain ⟨maxSize, hc, hfull⟩ := maxSize_le hgood.reach hvalid hout hb
  have hnone : ∀ l ∈ w.rest, takesOf l = 0 := by
    intro l hl
    rcases h.rest_cases hinv hroom hl with rfl | ⟨htake, -⟩ | ⟨y, -, l', rfl⟩
    · rfl
    · exact absurd hb (not_putBlocked_of_takeBlocked hgood.reach hvalid hout htake x)
    · obtain ⟨job, hjob, done, rfl⟩ := hgood.books.ledger.exists_suffix hl
      rcases (hrole _ hjob).of_append with hputs | htakes
      · rw [putsOf_put] at hputs
        cases hputs
      · exact htakes
  have hsome : 1 ≤ putCount w.rest := by
    obtain ⟨l', hl'⟩ := hgood.books.exists_rest hb
    refine le_trans ?_ (le_total_of_mem (f := fun l => (putsOf l).length) hl')
    exact Nat.le_add_left 1 (putsOf l').length
  have hfifo := (exchanged_of_free hinv (free_of_outside hinv hout)).1
  have hlen := congrArg List.length hfifo
  rw [List.length_append] at hlen
  have hputs := hgood.books.ledger.putCount_eq
  have htakes := hgood.books.ledger.count
  rw [total_eq_zero hnone] at htakes
  refine ⟨maxSize, hc, ?_⟩
  simp only [takeCount]
  omega

/-! ### When all have finished -/

lemma Finished.stopped (h : Finished w) : Stopped c w := by
  intro i w' hst
  have hnil : ∀ {l : List (Call α)}, w.todo[i]? = some l → l = [] :=
    fun hl => h.todo _ (List.mem_of_getElem? hl)
  cases hst with
  | put hp hl => exact absurd (hnil hl) (List.cons_ne_nil _ _)
  | take hp hl => exact absurd (hnil hl) (List.cons_ne_nil _ _)
  | run hp hidle => exact hidle (h.idle _ (List.mem_of_getElem? hp))

lemma Finished.rest_eq_nil (h : Finished w) {l : List (Call α)} (hl : l ∈ w.rest) : l = [] := by
  obtain ⟨i, p, l', hp, hl', rfl⟩ := exists_of_rest hl
  rw [h.idle p (List.mem_of_getElem? hp), h.todo l' (List.mem_of_getElem? hl')]
  rfl

/-- All values were put, and as many taken as there were to take. -/
lemma Finished.counts (h : Finished w) (hbooks : Books jobs w) :
    w.queue.shared.puts.length = putCount jobs ∧
      w.queue.shared.takes.length = takeCount jobs := by
  have hputs := hbooks.ledger.putCount_eq
  have htakes := hbooks.ledger.count
  rw [putCount_eq_zero fun l hl => by rw [h.rest_eq_nil hl, putsOf_nil]] at hputs
  rw [total_eq_zero fun l hl => by rw [h.rest_eq_nil hl, takesOf_nil]] at htakes
  exact ⟨hputs, htakes⟩

lemma Finished.exchanged (h : Finished w) (hvalid : c.Valid) (hgood : Good c jobs w) :
    w.queue.shared.takes ++ w.queue.shared.queue = w.queue.shared.puts ∧
      ∀ maxSize, c = .syncQueue maxSize → (w.queue.shared.queue.length : ℤ) ≤ maxSize :=
  exchanged_of_free (hgood.reach.inv hvalid)
    (free_of_outside (hgood.reach.inv hvalid) fun p hp => Or.inl (h.idle p hp))

lemma Finished.suits (h : Finished w) (hvalid : c.Valid) (hgood : Good c jobs w) :
    c.Suits (putCount jobs) (takeCount jobs) := by
  obtain ⟨hputs, htakes⟩ := h.counts hgood.books
  obtain ⟨hfifo, hfits⟩ := h.exchanged hvalid hgood
  have hlen := congrArg List.length hfifo
  rw [List.length_append, hputs, htakes] at hlen
  refine ⟨by omega, fun maxSize hc => ?_⟩
  have := hfits maxSize hc
  omega

lemma Stopped.finished (h : Stopped c w) (hvalid : c.Valid) (hgood : Good c jobs w)
    (hrole : ∀ job ∈ jobs, OneRole job) (hsuits : c.Suits (putCount jobs) (takeCount jobs)) :
    Finished w := by
  have hidle : ∀ p ∈ w.queue.threads, p = .idle := by
    intro p hp
    rcases h.idle_or_blocked (hgood.reach.inv hvalid) hgood.reach.roomy hp with hidle | hb
    · exact hidle
    · cases p with
      | takeBlocked =>
        have := h.lt_takeCount hvalid hgood hrole hp
        have := hsuits.1
        omega
      | putBlocked x =>
        obtain ⟨maxSize, hc, hlt⟩ := h.lt_putCount hvalid hgood hrole hp
        have := hsuits.2 maxSize hc
        omega
      | _ => cases hb
  refine ⟨hidle, fun l hl => ?_⟩
  obtain ⟨i, hi⟩ := List.getElem?_of_mem hl
  have hlt : i < w.queue.threads.length := by
    rw [← hgood.books.paired]
    exact (List.getElem?_eq_some_iff.1 hi).1
  refine h.todo_eq_nil (i := i) ?_ hi
  rw [List.getElem?_eq_getElem hlt, hidle _ (List.getElem_mem hlt)]

end Program

open Program

/-- What a thread had to put is in what was put, in its order. -/
lemma Program.Finished.sublist {jobs : List (List (Call α))} {w : Program α} (h : Finished w)
    (hbooks : Books jobs w) {job : List (Call α)} (hjob : job ∈ jobs) :
    (putsOf job).Sublist w.queue.shared.puts := by
  obtain ⟨i, hi⟩ := List.getElem?_of_mem hjob
  obtain ⟨done, l, hl, hdone, hsub⟩ := hbooks.ledger.order i job hi
  rw [h.rest_eq_nil (List.mem_of_getElem? hl), List.append_nil] at hdone
  rwa [hdone]

/-- **Producers and consumers finish.**  Let every thread only put or only take.  The steps of a run
are bounded by the numbers of calls, but for the spurious wake-ups; and where a run stops, all
threads have finished just when there is not more to take than to put, and for a `SyncQueue` not
more to put than to take and `maxSize` more. -/
theorem workload_ends {c : Class} {jobs : List (List (Call α))} {acts : List Act} {w : Program α}
    (hvalid : c.Valid) (hrole : ∀ job ∈ jobs, OneRole job)
    (h : Trace (Program.Step c) (Program.start jobs) acts w) :
    acts.length ≤ 8 * putCount jobs + 9 * takeCount jobs + 3 * acts.countP (fun a => !a.isRun) ∧
      (Stopped c w → (Finished w ↔ c.Suits (putCount jobs) (takeCount jobs))) := by
  have hgood := good_of_trace h
  refine ⟨?_, fun hstop => ⟨fun hfin => hfin.suits hvalid hgood,
    fun hsuits => hstop.finished hvalid hgood hrole hsuits⟩⟩
  have hwork := work_of_trace hvalid h
  have hstart : (Program.start jobs).work = 8 * putCount jobs + 9 * takeCount jobs := by
    have hidle : total Pc.work (Program.start jobs).queue.threads = 0 :=
      total_eq_zero fun p hp => by rw [(List.mem_replicate.1 hp).2, Pc.work]
    rw [Program.work, hidle, zero_add]
    exact total_workOf jobs
  have hlen := List.length_eq_countP_add_countP Act.isRun (l := acts)
  have hwakes : acts.countP (fun a => decide (¬ a.isRun = true))
      = acts.countP (fun a => !a.isRun) := List.countP_congr fun a _ => by simp
  omega

/-- One thread puts a value, another one takes it. -/
def sampleJobs : List (List (Call ℕ)) := [[.put 7], [.take]]

def sampleActs : List Act :=
  [.run 0, .run 0, .run 0, .run 0, .run 0, .run 0, .run 1, .run 1, .run 1, .run 1, .run 1, .run 1,
    .run 1]

def sampleEnd : Program ℕ := ⟨⟨⟨[], [7], [7], false⟩, none, [.idle, .idle]⟩, [[], []]⟩

lemma sample_trace :
    Trace (Program.Step (.syncQueue 1)) (Program.start sampleJobs) sampleActs sampleEnd := by
  have hnobody : ∀ (woken : Pc ℕ → Option (Pc ℕ)) (ts : List (Pc ℕ)), (∀ p ∈ ts, woken p = none) →
      NotifyOne woken ts ts := fun _ _ h => Or.inr ⟨h, rfl⟩
  refine .cons (.put rfl rfl) ?_
  refine .cons (.run rfl (by decide) rfl (.lock rfl rfl rfl)) ?_
  refine .cons (.run rfl (by decide) rfl (.putRoom rfl rfl rfl)) ?_
  refine .cons (.run rfl (by decide) rfl (.push rfl)) ?_
  refine .cons (.run rfl (by decide) rfl (.notifyNotEmpty rfl (hnobody _ _ (by decide)))) ?_
  refine .cons (.run rfl (by decide) rfl (.putReturn rfl)) ?_
  refine .cons (.take rfl rfl) ?_
  refine .cons (.run rfl (by decide) rfl (.lock rfl rfl rfl)) ?_
  refine .cons (.run rfl (by decide) rfl (.takeSome rfl rfl)) ?_
  refine .cons (.run rfl (by decide) rfl (.front rfl rfl)) ?_
  refine .cons (.run rfl (by decide) rfl (.pop rfl rfl)) ?_
  refine .cons (.run rfl (by decide) rfl (.notifyNotFull rfl (hnobody _ _ (by decide)))) ?_
  refine .cons (.run rfl (by decide) rfl (.takeReturn rfl)) ?_
  exact .nil _

lemma sample_oneRole : ∀ job ∈ sampleJobs, OneRole job := by
  intro job hjob
  rcases List.mem_pair.1 hjob with rfl | rfl
  · exact Or.inr rfl
  · exact Or.inl rfl

lemma sample_finished : Finished sampleEnd := ⟨by decide, by decide⟩

theorem workload_ends_sample : sampleActs.length ≤ 8 * 1 + 9 * 1 + 3 * 0 ∧
    (Class.syncQueue 1).Suits 1 1 := by
  obtain ⟨hlen, hiff⟩ := workload_ends (by decide) sample_oneRole sample_trace
  exact ⟨hlen, (hiff sample_finished.stopped).1 sample_finished⟩

/-- The two threads of the first demo always come to their ends. -/
example : (∀ job ∈ [putDatas, takeDatas], OneRole job) ∧
    (Class.syncQueue 5).Suits (putCount [putDatas, takeDatas])
      (takeCount [putDatas, takeDatas]) := by
  refine ⟨fun job hjob => ?_, ?_⟩
  · rcases List.mem_pair.1 hjob with rfl | rfl
    · exact Or.inr rfl
    · exact Or.inl rfl
  · refine ⟨by decide, fun maxSize hc => ?_⟩
    cases hc
    decide

/-- **What finished threads have exchanged.**  When all threads have finished, what was put is just
what they had to put, and the values of each thread are in it in their order; what was taken is the
beginning of it, of the length that they had to take, and the rest is in the queue. -/
theorem workload_delivers {c : Class} {jobs : List (List (Call α))} {acts : List Act}
    {w : Program α} (hvalid : c.Valid) (h : Trace (Program.Step c) (Program.start jobs) acts w)
    (hfin : Finished w) :
    w.queue.shared.takes ++ w.queue.shared.queue = w.queue.shared.puts ∧
      w.queue.shared.takes.length = takeCount jobs ∧
      w.queue.shared.puts.Perm (jobs.flatMap putsOf) ∧
      ∀ job ∈ jobs, (putsOf job).Sublist w.queue.shared.puts := by
  have hgood := good_of_trace h
  refine ⟨(hfin.exchanged hvalid hgood).1, (hfin.counts hgood.books).2, ?_,
    fun job hjob => hfin.sublist hgood.books hjob⟩
  have hvalues := hgood.books.ledger.values
  have hrest : total (fun l => (putsOf l : Multiset α)) w.rest = 0 :=
    total_eq_zero fun l hl => by rw [hfin.rest_eq_nil hl, putsOf_nil, Multiset.coe_nil]
  rw [hrest, add_zero, total_putsOf] at hvalues
  exact Multiset.coe_eq_coe.1 hvalues

theorem workload_delivers_sample : sampleEnd.queue.shared.takes = [7] ∧
    sampleEnd.queue.shared.puts.Perm [7] := by
  obtain ⟨-, -, hperm, -⟩ := workload_delivers (c := .syncQueue 1) (by decide) sample_trace
    sample_finished
  exact ⟨rfl, hperm⟩

end CppExample.SyncQueue
