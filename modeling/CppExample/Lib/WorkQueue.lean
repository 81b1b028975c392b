/-
# What a work queue owes its items

An abstract machine for a queue of work items that is served by anonymous holders: an item
is pushed, later taken from the front by some holder, possibly begun, and finally settled
with some result.  The machine keeps the order of the pushes and of the takings, and knows
which items are held and which are being worked on only as multisets, so that it says
nothing about who holds them.

`Accounted` is its invariant.  The consequences at the end of the file are what a program
that simulates the machine gets for free: every pushed item is in exactly one place.
-/
import Mathlib.Data.Multiset.AddSub
import Mathlib.Data.Multiset.Count
import CppExample.Lib.Run

namespace CppExample.Lib

/-- The state of a work queue with items `α` and results `φ`. -/
structure WorkQueue (α φ : Type*) where
  /-- The items that wait. -/
  queue : List α
  /-- All items pushed so far. -/
  pushed : List α
  /-- All items taken so far. -/
  taken : List α
  /-- All items begun so far. -/
  started : List α
  /-- All items settled so far, with their results. -/
  settled : List (α × φ)
  /-- The items that are taken and not settled. -/
  held : Multiset α
  /-- The items that are begun and not settled. -/
  running : Multiset α

namespace WorkQueue

variable {α φ : Type*}

/-- The steps of the machine; `ran` tells the results of items that were begun from those
of items that were given up. -/
inductive Step (ran : φ → Bool) (w : WorkQueue α φ) : WorkQueue α φ → Prop
  /-- An item is pushed. -/
  | push (x : α) : Step ran w { w with queue := w.queue ++ [x], pushed := w.pushed ++ [x] }
  /-- The item at the front is taken. -/
  | take {x : α} {rest : List α} (h : w.queue = x :: rest) :
      Step ran w { w with queue := rest, taken := w.taken ++ [x], held := w.held + {x} }
  /-- An item is begun. -/
  | begin (x : α) :
      Step ran w { w with started := w.started ++ [x], running := w.running + {x} }
  /-- A held item is settled. -/
  | settle {x : α} {f : φ} {held running : Multiset α} (hh : w.held = held + {x})
      (hr : w.running = running + if ran f then {x} else 0) :
      Step ran w { w with settled := w.settled ++ [(x, f)], held := held, running := running }

/-- The items of a list of settled items that were begun. -/
def ranItems (ran : φ → Bool) (settled : List (α × φ)) : List α :=
  (settled.filter fun p => ran p.2).map Prod.fst

lemma ranItems_append (ran : φ → Bool) (xs : List (α × φ)) (x : α) (f : φ) :
    ranItems ran (xs ++ [(x, f)]) = ranItems ran xs ++ if ran f then [x] else [] := by
  cases h : ran f <;> simp [ranItems, List.filter_append, h]

/-- The books are balanced. -/
structure Accounted (ran : φ → Bool) (w : WorkQueue α φ) : Prop where
  /-- Items are taken in the order in which they were pushed. -/
  fifo : w.pushed = w.taken ++ w.queue
  /-- A taken item is held or settled. -/
  taken_eq : (w.taken : Multiset α) = w.held + ((w.settled.map Prod.fst : List α) : Multiset α)
  /-- An item that was begun is being worked on or was settled after that. -/
  started_eq : (w.started : Multiset α) = w.running + (ranItems ran w.settled : Multiset α)

variable {ran : φ → Bool} {w v : WorkQueue α φ}

lemma Accounted.step (h : Accounted ran w) (hs : Step ran w v) : Accounted ran v := by
  cases hs with
  | push x =>
    refine ⟨?_, h.taken_eq, h.started_eq⟩
    simp only [h.fifo, List.append_assoc]
  | @take x rest hq =>
    refine ⟨?_, ?_, h.started_eq⟩
    · simp only [h.fifo, hq, List.append_assoc, List.cons_append, List.nil_append]
    · rw [← Multiset.coe_add, h.taken_eq, Multiset.coe_singleton]
      exact add_right_comm _ _ _
  | begin x =>
    refine ⟨h.fifo, h.taken_eq, ?_⟩
    rw [← Multiset.coe_add, h.started_eq, Multiset.coe_singleton]
    exact add_right_comm _ _ _
  | @settle x f held running hh hr =>
    refine ⟨h.fifo, ?_, ?_⟩
    · rw [h.taken_eq, hh, List.map_append, ← Multiset.coe_add, List.map_singleton,
        Multiset.coe_singleton]
      abel
    · rw [h.started_eq, hr, ranItems_append, ← Multiset.coe_add]
      cases ran f with
      | false => simp
      | true =>
        rw [if_pos rfl, if_pos rfl, Multiset.coe_singleton, add_assoc,
          add_comm ({x} : Multiset α)]

section Count

variable [DecidableEq α]

/-- **One place for every item.**  When no item is pushed twice, a pushed item waits, is
held, or is settled, and exactly one of the three, once. -/
lemma Accounted.count_eq_one (h : Accounted ran w) (hnd : w.pushed.Nodup) {x : α}
    (hx : x ∈ w.pushed) :
    w.queue.count x + w.held.count x + (w.settled.map Prod.fst).count x = 1 := by
  have hone : w.pushed.count x = 1 := List.count_eq_one_of_mem hnd hx
  have htaken := congrArg (Multiset.count x) h.taken_eq
  rw [Multiset.count_add, Multiset.coe_count, Multiset.coe_count] at htaken
  rw [h.fifo, List.count_append] at hone
  omega

/-- An item is begun as often as it is being worked on or was settled after that. -/
lemma Accounted.count_started (h : Accounted ran w) (x : α) :
    w.started.count x = w.running.count x + (ranItems ran w.settled).count x := by
  have := congrArg (Multiset.count x) h.started_eq
  rwa [Multiset.count_add, Multiset.coe_count, Multiset.coe_count] at this

end Count

/-- A taken item does not wait. -/
lemma Accounted.not_mem_queue (h : Accounted ran w) (hnd : w.pushed.Nodup) {x : α}
    (hx : x ∈ w.taken) : x ∉ w.queue := by
  rw [h.fifo, List.nodup_append] at hnd
  intro hq
  exact hnd.2.2 x hx x hq rfl

end WorkQueue

end CppExample.Lib
