/-
# The blocking queues are FIFO queues

The monitor invariant of both classes, with an assertion for every program point inside.
With the mutex free, what was taken followed by what is in the queue is what was put, and a
`SyncQueue` is not longer than its bound.  In the middle of a `Put` or a `Take` the value at
hand stands between the two sides.
-/
import CppExample.SyncQueue.Model

namespace CppExample.SyncQueue
open Lib

variable {α : Type*}

/-- The argument of the constructor is a positive `int`. -/
def Class.Valid : Class → Prop
  | .syncQueue maxSize => 1 ≤ maxSize ∧ maxSize < 2 ^ 31
  | .simpleSyncQueue => True

instance : DecidablePred Class.Valid
  | .syncQueue maxSize => inferInstanceAs (Decidable (1 ≤ maxSize ∧ maxSize < 2 ^ 31))
  | .simpleSyncQueue => inferInstanceAs (Decidable True)

/-- The number of elements that the class allows, with `n` more to come. -/
def Class.Fits (c : Class) (n : ℤ) (d : Shared α) : Prop :=
  ∀ maxSize, c = .syncQueue maxSize → d.queue.length + n ≤ maxSize

/-- The monitor invariant, with `taken` taken out and `put` put in by a call that has not
returned yet. -/
structure Balanced (c : Class) (taken put : List α) (d : Shared α) : Prop where
  fifo : d.takes ++ taken ++ d.queue = d.puts ++ put
  fits : c.Fits 0 d
  ok : d.fault = false

/-- The assertions of the program points inside the monitor. -/
def Assertion (c : Class) : Pc α → Shared α → Prop
  | .putPush _, d => Balanced c [] [] d ∧ c.Fits 1 d
  | .putNotify x, d | .putUnlock x, d => Balanced c [] [x] d
  | .takeFront, d => Balanced c [] [] d ∧ d.queue ≠ []
  | .takePop x, d => Balanced c [] [] d ∧ d.queue.head? = some x
  | .takeNotify x, d | .takeUnlock x, d => Balanced c [x] [] d
  | _, d => Balanced c [] [] d

/-- The monitor invariant of a state. -/
def Inv (c : Class) (s : State α) : Prop :=
  Guarded Pc.inside (Balanced c [] []) (Assertion c) s.mutex s.threads s.shared

lemma Assertion.ok {c : Class} {p : Pc α} {d : Shared α} (h : Assertion c p d) :
    d.fault = false := by
  cases p with
  | putPush x | takeFront | takePop x => exact h.1.ok
  | _ => exact Balanced.ok h

/-! ## One lemma for each statement -/

lemma Balanced.afterLock {c : Class} {p q : Pc α} {d : Shared α} (hq : p.afterLock c = some q)
    (h : Balanced c [] [] d) : Assertion c q d := by
  cases p with
  | putLock x =>
    cases c with
    | syncQueue maxSize =>
      cases hq
      exact h
    | simpleSyncQueue =>
      cases hq
      exact ⟨h, fun m hm => by cases hm⟩
  | putWoken x | takeLock | takeWoken =>
    cases hq
    exact h
  | _ => cases hq

/-- For a positive `int` the conversion to 64 bits changes nothing. -/
lemma Shared.isFull_iff {d : Shared α} {maxSize : ℤ} (hvalid : (Class.syncQueue maxSize).Valid) :
    d.isFull maxSize = true ↔ (d.queue.length : ℤ) = maxSize := by
  have hlt : maxSize < 2 ^ 64 := hvalid.2.trans (by norm_num)
  have hmod : maxSize % 2 ^ 64 = maxSize := Int.emod_eq_of_lt (by linarith [hvalid.1]) hlt
  rw [Shared.isFull, hmod, decide_eq_true_iff]

lemma Balanced.putRoom {d : Shared α} {maxSize : ℤ} (hvalid : (Class.syncQueue maxSize).Valid)
    (hf : d.isFull maxSize = false) (h : Balanced (.syncQueue maxSize) [] [] d) :
    (Class.syncQueue maxSize).Fits 1 d := by
  intro m hm
  cases hm
  have hne : (d.queue.length : ℤ) ≠ maxSize := by
    rw [Ne, ← Shared.isFull_iff hvalid, hf]
    exact Bool.false_ne_true
  have hle := h.fits maxSize rfl
  omega

lemma Balanced.push {c : Class} {d : Shared α} (h : Balanced c [] [] d) (hroom : c.Fits 1 d)
    (x : α) : Balanced c [] [x] { d with queue := d.queue ++ [x] } := by
  refine ⟨?_, fun m hm => ?_, h.ok⟩
  · have := h.fifo
    simp only [List.append_nil] at this ⊢
    rw [← List.append_assoc, this]
  · have := hroom m hm
    rw [List.length_append, List.length_singleton]
    push_cast
    omega

lemma Balanced.putReturn {c : Class} {d : Shared α} {x : α} (h : Balanced c [] [x] d) :
    Balanced c [] [] { d with puts := d.puts ++ [x] } := by
  refine ⟨?_, h.fits, h.ok⟩
  have := h.fifo
  simp only [List.append_nil] at this ⊢
  exact this

lemma Balanced.pop {c : Class} {d : Shared α} {x : α} {rest : List α}
    (hq : d.queue = x :: rest) (h : Balanced c [] [] d) :
    Balanced c [x] [] { d with queue := rest } := by
  refine ⟨?_, fun m hm => ?_, h.ok⟩
  · have := h.fifo
    rw [hq] at this
    simp only [List.append_nil] at this ⊢
    rw [← this, List.append_assoc]
    rfl
  · have := h.fits m hm
    rw [hq, List.length_cons] at this
    push_cast at this
    dsimp only
    omega

lemma Balanced.takeReturn {c : Class} {d : Shared α} {x : α} (h : Balanced c [x] [] d) :
    Balanced c [] [] { d with takes := d.takes ++ [x] } := by
  refine ⟨?_, h.fits, h.ok⟩
  have := h.fifo
  simp only [List.append_nil] at this ⊢
  exact this

/-! ## Every step keeps the invariant -/

lemma not_inside_of_wokenNotEmpty {p q : Pc α} (h : p.wokenNotEmpty = some q) :
    p.inside = false ∧ q.inside = false := by
  cases p <;> cases h
  exact ⟨rfl, rfl⟩

lemma not_inside_of_wokenNotFull {p q : Pc α} (h : p.wokenNotFull = some q) :
    p.inside = false ∧ q.inside = false := by
  cases p <;> cases h
  exact ⟨rfl, rfl⟩

lemma inside_of_afterLock {c : Class} {p q : Pc α} (h : p.afterLock c = some q) :
    q.inside = true := by
  cases p <;> cases c <;> cases h <;> rfl

lemma Step.inv {c : Class} (hvalid : c.Valid) {i : ℕ} {s t : State α} (hst : Step c i s t)
    (hs : Inv c s) : Inv c t := by
  cases hst with
  | put x h => exact hs.outside h rfl rfl
  | take h => exact hs.outside h rfl rfl
  | lock h hq hm =>
    rw [Inv, hm] at hs
    exact hs.acquire h (inside_of_afterLock hq) (Balanced.afterLock hq)
  | wakePut h hq =>
    obtain ⟨hp, hq⟩ := not_inside_of_wokenNotFull hq
    exact hs.outside h hp hq
  | wakeTake h hq =>
    obtain ⟨hp, hq⟩ := not_inside_of_wokenNotEmpty hq
    exact hs.outside h hp hq
  | putFull h => exact hs.release h rfl rfl fun hd => hd
  | putRoom h hc hf =>
    subst hc
    exact hs.step h rfl rfl fun hd => ⟨hd, Balanced.putRoom hvalid hf hd⟩
  | push h => exact hs.step h rfl rfl fun hd => hd.1.push hd.2 _
  | notifyNotEmpty h hn =>
    have hn' := hs.notifyOne hn fun _ _ => not_inside_of_wokenNotEmpty
    exact hn'.step (hn.getElem?_of_not_blocked h rfl) rfl rfl fun hd => hd
  | putReturn h => exact hs.release h rfl rfl Balanced.putReturn
  | takeEmpty h => exact hs.release h rfl rfl fun hd => hd
  | takeSome h he =>
    refine hs.step h rfl rfl fun hd => ⟨hd, fun hnil => ?_⟩
    rw [Shared.isEmpty, hnil] at he
    cases he
  | front h hq => exact hs.step h rfl rfl fun hd => ⟨hd.1, by rw [hq]; rfl⟩
  | frontFault h hq => exact absurd hq (hs.at_inside h rfl).2.2
  | pop h hq =>
    refine hs.step h rfl (by cases c <;> rfl) fun hd => ?_
    obtain ⟨hd, hhead⟩ := hd
    rw [hq, List.head?_cons, Option.some.injEq] at hhead
    rw [hhead] at hq
    cases c <;> exact hd.pop hq
  | popFault h hq =>
    have hhead := (hs.at_inside h rfl).2.2
    rw [hq] at hhead
    cases hhead
  | notifyNotFull h hn =>
    have hn' := hs.notifyOne hn fun _ _ => not_inside_of_wokenNotFull
    exact hn'.step (hn.getElem?_of_not_blocked h rfl) rfl rfl fun hd => hd
  | takeReturn h => exact hs.release h rfl rfl Balanced.takeReturn

lemma inv_fresh {c : Class} (hvalid : c.Valid) (n : ℕ) : Inv c (State.fresh n : State α) := by
  refine ⟨fun i p hp => ?_, fun _ => ⟨rfl, fun m hm => ?_, rfl⟩, fun i hi => by cases hi⟩
  · rw [(List.mem_replicate.1 (List.mem_of_getElem? hp)).2]
    exact iff_of_false Bool.false_ne_true fun heq => by cases heq
  · subst hm
    have hpos : 1 ≤ m := hvalid.1
    simp only [State.fresh, List.length_nil]
    omega

lemma Reach.inv {c : Class} (hvalid : c.Valid) {s : State α} (h : Reach c s) : Inv c s := by
  refine Reachable.invariant ?_ ?_ h
  · rintro s ⟨n, rfl⟩
    exact inv_fresh hvalid n
  · rintro s t - hs ⟨i, hst⟩
    exact hst.inv hvalid hs

/-- **The queues are FIFO.**  In every interleaving, when the mutex is free, the values
taken so far followed by the contents of the queue are the values put so far, and a
`SyncQueue` has at most `maxSize` elements.  No `Take` ever looks at an empty queue. -/
theorem fifo {c : Class} (hvalid : c.Valid) {s : State α} (h : Reach c s) :
    (s.mutex = none → s.shared.takes ++ s.shared.queue = s.shared.puts ∧
        ∀ maxSize, c = .syncQueue maxSize → (s.shared.queue.length : ℤ) ≤ maxSize) ∧
      (∀ i : ℕ, s.threads[i]? = some .takeFront → s.shared.queue ≠ []) ∧
      s.shared.fault = false := by
  have hinv := h.inv hvalid
  refine ⟨fun hm => ?_, fun i hi => (hinv.at_inside hi rfl).2.2, ?_⟩
  · have hrest := hinv.free hm
    refine ⟨by simpa using hrest.fifo, fun m hc => ?_⟩
    have := hrest.fits m hc
    omega
  · cases hm : s.mutex with
    | none => exact (hinv.free hm).ok
    | some i =>
      obtain ⟨p, -, hp⟩ := hinv.held i hm
      exact hp.ok

/-- A `SyncQueue` of size 1 that is full, with a producer blocked on it. -/
def blockedPut : State ℕ := ⟨⟨[7], [7], [], false⟩, none, [.putBlocked 8, .idle]⟩

lemma blockedPut_reach : Reach (.syncQueue 1) blockedPut := by
  have h : Reach (.syncQueue 1) (State.fresh 2 : State ℕ) := .of_init ⟨2, rfl⟩
  have h := ((h.tail ⟨0, .put 7 rfl⟩).tail ⟨0, .lock rfl rfl rfl⟩).tail ⟨0, .putRoom rfl rfl rfl⟩
  have h := (h.tail ⟨0, .push rfl⟩).tail ⟨0, .notifyNotEmpty rfl (Or.inr ⟨by decide, rfl⟩)⟩
  have h := (h.tail ⟨0, .putReturn rfl⟩).tail ⟨0, .put 8 rfl⟩
  exact (h.tail ⟨0, .lock rfl rfl rfl⟩).tail ⟨0, .putFull rfl rfl rfl⟩

/-- The other thread has taken the first value, and the producer has put the second. -/
def secondPut : State ℕ := ⟨⟨[8], [7, 8], [7], false⟩, none, [.idle, .idle]⟩

lemma secondPut_reach : Reach (.syncQueue 1) secondPut := by
  have h := (blockedPut_reach.tail ⟨1, .take rfl⟩).tail ⟨1, .lock rfl rfl rfl⟩
  have h := ((h.tail ⟨1, .takeSome rfl rfl⟩).tail ⟨1, .front rfl rfl⟩).tail ⟨1, .pop rfl rfl⟩
  have h := (h.tail ⟨1, .notifyNotFull rfl (Or.inl ⟨0, _, _, rfl, rfl, rfl⟩)⟩).tail
    ⟨1, .takeReturn rfl⟩
  have h := (h.tail ⟨0, .lock rfl rfl rfl⟩).tail ⟨0, .putRoom rfl rfl rfl⟩
  have h := (h.tail ⟨0, .push rfl⟩).tail ⟨0, .notifyNotEmpty rfl (Or.inr ⟨by decide, rfl⟩)⟩
  exact h.tail ⟨0, .putReturn rfl⟩

theorem fifo_secondPut : (Class.syncQueue 1).Valid ∧ secondPut.shared.takes = [7] ∧
    secondPut.shared.takes ++ secondPut.shared.queue = secondPut.shared.puts :=
  ⟨by decide, rfl, ((fifo (by decide) secondPut_reach).1 rfl).1⟩

end CppExample.SyncQueue
