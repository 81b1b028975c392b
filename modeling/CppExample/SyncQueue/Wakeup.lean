/-
# No lost wake-up in `SyncQueue`

Every element in the queue, while some consumer is blocked, is matched by a consumer that is
on its way to take it: one that was woken, or that is inside and has not popped yet, or that
the producer inside is about to notify.  The same holds of free places and producers.  These
two facts are kept by every step, also when a third thread takes the element or the place
that a thread was woken for, and when a woken thread goes back to sleep.
-/
import CppExample.SyncQueue.Fifo

namespace CppExample.SyncQueue
open Lib

variable {α : Type*}

namespace Pc

/-- Blocked on `_notEmpty`, and not notified. -/
def isTakeBlocked : Pc α → Bool
  | takeBlocked => true
  | _ => false

/-- Woken in `Take`, without the mutex. -/
def isTakeWoken : Pc α → Bool
  | takeWoken => true
  | _ => false

/-- Blocked on `_notFull`, and not notified. -/
def isPutBlocked : Pc α → Bool
  | putBlocked _ => true
  | _ => false

/-- Woken in `Put`, without the mutex. -/
def isPutWoken : Pc α → Bool
  | putWoken _ => true
  | _ => false

/-- An element that a thread will take, or will notify a consumer of. -/
def takeCredit : Pc α → ℤ
  | takeWoken | takeTest | takeFront | takePop _ | putNotify _ => 1
  | _ => 0

/-- A place that a thread will fill, or will notify a producer of. -/
def putCredit : Pc α → ℤ
  | putWoken _ | putTest _ | putPush _ | takeNotify _ => 1
  | _ => 0

end Pc

namespace State

/-- The number of consumers that were woken and do not have the mutex yet. -/
def wokenTakes (s : State α) : ℕ := s.threads.countP Pc.isTakeWoken

/-- The number of producers that were woken and do not have the mutex yet. -/
def wokenPuts (s : State α) : ℕ := s.threads.countP Pc.isPutWoken

end State

lemma takeCredit_nonneg (p : Pc α) : 0 ≤ p.takeCredit := by
  cases p <;> simp [Pc.takeCredit]

lemma putCredit_nonneg (p : Pc α) : 0 ≤ p.putCredit := by
  cases p <;> simp [Pc.putCredit]

/-- Outside the monitor, the credit is that of the woken threads. -/
lemma takeCredit_of_not_inside {p : Pc α} (h : p.inside = false) :
    p.takeCredit = if p.isTakeWoken then 1 else 0 := by
  cases p <;> first | rfl | cases h

lemma putCredit_of_not_inside {p : Pc α} (h : p.inside = false) :
    p.putCredit = if p.isPutWoken then 1 else 0 := by
  cases p <;> first | rfl | cases h

/-! ## Elements and consumers -/

lemma takeCredit_of_afterLock {c : Class} {p q : Pc α} (h : p.afterLock c = some q) :
    q.isTakeBlocked = false ∧ p.takeCredit ≤ q.takeCredit := by
  cases p <;> cases c <;> cases h <;> exact ⟨rfl, by simp [Pc.takeCredit]⟩

lemma takeCredit_of_wokenNotFull {p q : Pc α} (h : p.wokenNotFull = some q) :
    q.isTakeBlocked = false ∧ p.takeCredit ≤ q.takeCredit := by
  cases p <;> cases h
  exact ⟨rfl, le_refl 0⟩

lemma takeCredit_of_wokenNotEmpty {p q : Pc α} (h : p.wokenNotEmpty = some q) :
    p.isTakeBlocked = true ∧ q.takeCredit = p.takeCredit + 1 := by
  cases p <;> cases h
  exact ⟨rfl, rfl⟩

lemma not_takeBlocked_of_wokenNotEmpty {p : Pc α} (h : p.wokenNotEmpty = none) :
    p.isTakeBlocked = false := by
  cases p <;> first | rfl | cases h

/-- While a consumer is blocked, every element of the queue is provided for. -/
def TakesCovered (s : State α) : Prop :=
  Covered Pc.isTakeBlocked Pc.takeCredit s.shared.queue.length s.threads

lemma Step.takesCovered {c : Class} {i : ℕ} {s t : State α} (hst : Step c i s t)
    (hs : TakesCovered s) : TakesCovered t := by
  cases hst with
  | lock h hq =>
    obtain ⟨hb, hc⟩ := takeCredit_of_afterLock hq
    exact hs.gain h hb hc
  | wakePut h hq =>
    obtain ⟨hb, hc⟩ := takeCredit_of_wokenNotFull hq
    exact hs.gain h hb hc
  | wakeTake h hq =>
    refine hs.move h (fun _ => (takeCredit_of_wokenNotEmpty hq).1) ?_
    rw [(takeCredit_of_wokenNotEmpty hq).2]
    dsimp only
    omega
  | push h => exact hs.move h (fun hb => hb) (by simp [Pc.takeCredit])
  | notifyNotEmpty h hn =>
    -- the notification pays for the element, whether it finds somebody or not
    have hn' := hs.notifyOne hn (fun _ _ => takeCredit_of_wokenNotEmpty)
      fun _ => not_takeBlocked_of_wokenNotEmpty
    exact hn'.move (hn.getElem?_of_not_blocked h rfl) (fun hb => hb) (by simp [Pc.takeCredit])
  | notifyNotFull h hn =>
    have hn' := hs.notifyOther hn fun _ _ => takeCredit_of_wokenNotFull
    exact hn'.gain (hn.getElem?_of_not_blocked h rfl) rfl (le_refl _)
  | takeEmpty h he =>
    -- the consumer goes to sleep, but there is nothing to take
    refine Covered.block takeCredit_nonneg ?_ _
    rw [List.isEmpty_iff.1 he]
    exact le_refl 0
  | pop h hq =>
    rw [TakesCovered, hq] at hs
    cases c <;> exact hs.move h (fun hb => hb) (by simp [Pc.takeCredit, Pc.afterPop])
  | put x h => exact hs.gain h rfl (le_refl _)
  | take h | putFull h | putRoom h | putReturn h | takeSome h | front h | takeReturn h =>
    exact hs.gain h rfl (le_refl _)
  | frontFault h | popFault h => exact hs

/-! ## Places and producers -/

lemma putCredit_of_afterLock {c : Class} {p q : Pc α} (h : p.afterLock c = some q) :
    q.isPutBlocked = false ∧ p.putCredit ≤ q.putCredit := by
  cases p <;> cases c <;> cases h <;> exact ⟨rfl, by simp [Pc.putCredit]⟩

lemma putCredit_of_wokenNotEmpty {p q : Pc α} (h : p.wokenNotEmpty = some q) :
    q.isPutBlocked = false ∧ p.putCredit ≤ q.putCredit := by
  cases p <;> cases h
  exact ⟨rfl, le_refl 0⟩

lemma putCredit_of_wokenNotFull {p q : Pc α} (h : p.wokenNotFull = some q) :
    p.isPutBlocked = true ∧ q.putCredit = p.putCredit + 1 := by
  cases p <;> cases h
  exact ⟨rfl, rfl⟩

lemma not_putBlocked_of_wokenNotFull {p : Pc α} (h : p.wokenNotFull = none) :
    p.isPutBlocked = false := by
  cases p <;> first | rfl | cases h

/-- While a producer is blocked, every free place of the queue is provided for. -/
def PutsCovered (maxSize : ℤ) (s : State α) : Prop :=
  Covered Pc.isPutBlocked Pc.putCredit (maxSize - s.shared.queue.length) s.threads

lemma Step.putsCovered {maxSize : ℤ} (hvalid : (Class.syncQueue maxSize).Valid) {i : ℕ}
    {s t : State α} (hst : Step (.syncQueue maxSize) i s t) (hs : PutsCovered maxSize s) :
    PutsCovered maxSize t := by
  cases hst with
  | lock h hq =>
    obtain ⟨hb, hc⟩ := putCredit_of_afterLock hq
    exact hs.gain h hb hc
  | wakeTake h hq =>
    obtain ⟨hb, hc⟩ := putCredit_of_wokenNotEmpty hq
    exact hs.gain h hb hc
  | wakePut h hq =>
    refine hs.move h (fun _ => (putCredit_of_wokenNotFull hq).1) ?_
    rw [(putCredit_of_wokenNotFull hq).2]
    dsimp only
    omega
  | pop h hq =>
    rw [PutsCovered, hq, List.length_cons] at hs
    push_cast at hs
    refine hs.move h (fun hb => hb) ?_
    simp only [Pc.putCredit, Pc.afterPop]
    omega
  | notifyNotFull h hn =>
    have hn' := hs.notifyOne hn (fun _ _ => putCredit_of_wokenNotFull)
      fun _ => not_putBlocked_of_wokenNotFull
    exact hn'.move (hn.getElem?_of_not_blocked h rfl) (fun hb => hb) (by simp [Pc.putCredit])
  | notifyNotEmpty h hn =>
    have hn' := hs.notifyOther hn fun _ _ => putCredit_of_wokenNotEmpty
    exact hn'.gain (hn.getElem?_of_not_blocked h rfl) rfl (le_refl _)
  | putFull h hc hf =>
    -- the producer goes to sleep, but there is no free place
    cases hc
    refine Covered.block putCredit_nonneg ?_ _
    rw [(Shared.isFull_iff hvalid).1 hf]
    omega
  | push h =>
    refine hs.move h (fun hb => hb) ?_
    simp only [Pc.putCredit, List.length_append, List.length_singleton]
    push_cast
    omega
  | put x h => exact hs.gain h rfl (le_refl _)
  | take h | putRoom h | putReturn h | takeEmpty h | takeSome h | front h | takeReturn h =>
    exact hs.gain h rfl (le_refl _)
  | frontFault h | popFault h => exact hs

/-! ## No lost wake-up -/

lemma not_blocked_fresh {n : ℕ} {p : Pc α} (hp : p ∈ (State.fresh n : State α).threads) :
    p.isTakeBlocked = false ∧ p.isPutBlocked = false := by
  rw [(List.mem_replicate.1 hp).2]
  exact ⟨rfl, rfl⟩

lemma Reach.takesCovered {c : Class} {s : State α} (h : Reach c s) : TakesCovered s := by
  refine Reachable.invariant ?_ ?_ h
  · rintro s ⟨n, rfl⟩ ⟨p, hp, hb⟩
    rw [(not_blocked_fresh hp).1] at hb
    cases hb
  · rintro s t - hs ⟨i, hst⟩
    exact hst.takesCovered hs

lemma Reach.putsCovered {maxSize : ℤ} (hvalid : (Class.syncQueue maxSize).Valid) {s : State α}
    (h : Reach (.syncQueue maxSize) s) : PutsCovered maxSize s := by
  refine Reachable.invariant (I := PutsCovered maxSize) ?_ ?_ h
  · rintro s ⟨n, rfl⟩ ⟨p, hp, hb⟩
    rw [(not_blocked_fresh hp).2] at hb
    cases hb
  · rintro s t - hs ⟨i, hst⟩
    exact hst.putsCovered hvalid hs

/-- Nobody is inside while the mutex is free. -/
lemma Inv.not_inside {c : Class} {s : State α} (h : Inv c s) (hm : s.mutex = none) {p : Pc α}
    (hp : p ∈ s.threads) : p.inside = false := by
  obtain ⟨i, hi⟩ := List.getElem?_of_mem hp
  cases hin : p.inside with
  | false => rfl
  | true =>
    have := (h.excl i p hi).1 hin
    rw [hm] at this
    cases this

/-- The two counts, when the mutex is free. -/
lemma Reach.counts {maxSize : ℤ} (hvalid : (Class.syncQueue maxSize).Valid) {s : State α}
    (h : Reach (.syncQueue maxSize) s) (hm : s.mutex = none) :
    ((∃ p ∈ s.threads, p.isTakeBlocked = true) → s.shared.queue.length ≤ s.wokenTakes) ∧
      ((∃ p ∈ s.threads, p.isPutBlocked = true) →
        maxSize - s.shared.queue.length ≤ s.wokenPuts) := by
  have hout : ∀ p ∈ s.threads, p.inside = false := fun p => (h.inv hvalid).not_inside hm
  constructor
  · intro hblocked
    have hle := h.takesCovered hblocked
    rw [total_eq_countP fun p hp => takeCredit_of_not_inside (hout p hp)] at hle
    exact Int.ofNat_le.1 hle
  · intro hblocked
    have hle := h.putsCovered hvalid hblocked
    rwa [total_eq_countP fun p hp => putCredit_of_not_inside (hout p hp)] at hle

/-- **No lost wake-up and no mutual blocking.**  When the mutex is free and a consumer is
blocked, there are at most as many elements as consumers that were woken; when a producer
is blocked, there are at most as many free places as producers that were woken.  So a
producer and a consumer are never both blocked with every other thread blocked or outside
the queue. -/
theorem no_lost_wakeup_syncQueue {maxSize : ℤ} (hvalid : (Class.syncQueue maxSize).Valid)
    {s : State α} (h : Reach (.syncQueue maxSize) s) :
    (s.mutex = none →
        ((∃ i : ℕ, s.threads[i]? = some .takeBlocked) → s.shared.queue.length ≤ s.wokenTakes) ∧
        ((∃ (i : ℕ) (x : α), s.threads[i]? = some (.putBlocked x)) →
          maxSize - s.shared.queue.length ≤ s.wokenPuts)) ∧
      ¬ ((∃ (i : ℕ) (x : α), s.threads[i]? = some (.putBlocked x)) ∧
        (∃ i : ℕ, s.threads[i]? = some .takeBlocked) ∧
        ∀ p ∈ s.threads, p = .idle ∨ p.isTakeBlocked = true ∨ p.isPutBlocked = true) := by
  constructor
  · intro hm
    obtain ⟨htakes, hputs⟩ := h.counts hvalid hm
    refine ⟨?_, ?_⟩
    · rintro ⟨i, hi⟩
      exact htakes ⟨_, List.mem_of_getElem? hi, rfl⟩
    · rintro ⟨i, x, hi⟩
      exact hputs ⟨_, List.mem_of_getElem? hi, rfl⟩
  · rintro ⟨⟨i, x, hi⟩, ⟨j, hj⟩, hall⟩
    -- with everybody outside, the mutex is free and nobody is woken
    have hout : ∀ p ∈ s.threads, p.inside = false ∧ p.isTakeWoken = false ∧
        p.isPutWoken = false := by
      intro p hp
      rcases hall p hp with rfl | hb | hb
      · exact ⟨rfl, rfl, rfl⟩
      · cases p <;> first | exact ⟨rfl, rfl, rfl⟩ | cases hb
      · cases p <;> first | exact ⟨rfl, rfl, rfl⟩ | cases hb
    have hm : s.mutex = none := by
      cases hm : s.mutex with
      | none => rfl
      | some k =>
        have hinv := h.inv hvalid
        obtain ⟨p, hp, -⟩ := hinv.held k hm
        have hin := (hinv.excl k p hp).2 hm
        rw [(hout p (List.mem_of_getElem? hp)).1] at hin
        cases hin
    obtain ⟨htakes, hputs⟩ := h.counts hvalid hm
    have h1 := htakes ⟨_, List.mem_of_getElem? hj, rfl⟩
    have h2 := hputs ⟨_, List.mem_of_getElem? hi, rfl⟩
    have hzero : s.wokenTakes = 0 ∧ s.wokenPuts = 0 := by
      constructor
      · exact List.countP_eq_zero.2 fun p hp hw => by rw [(hout p hp).2.1] at hw; cases hw
      · exact List.countP_eq_zero.2 fun p hp hw => by rw [(hout p hp).2.2] at hw; cases hw
    have hpos : 1 ≤ maxSize := hvalid.1
    omega

theorem no_lost_wakeup_syncQueue_blockedPut : (Class.syncQueue 1).Valid ∧
    (1 : ℤ) - blockedPut.shared.queue.length ≤ blockedPut.wokenPuts :=
  ⟨by decide, ((no_lost_wakeup_syncQueue (by decide) blockedPut_reach).1 rfl).2 ⟨0, 8, rfl⟩⟩

end CppExample.SyncQueue
