/-
# Lookups when memory runs out

`reactor_resize` reports that there was no memory, but the loop of `reactor_lookup` drops
the report and calls it again.  So `reactor_lookup` never returns null for want of memory.
It returns the item of its descriptor if `malloc` succeeds twice in a row, later in the run,
once for every block that is missing; otherwise it does not return.  Calls of `malloc` that
fail in between do no harm to the table.
-/
import CppExample.C1000k.TableRuns

namespace CppExample.C1000k
open Lib

variable {ok : ℕ → Bool} {w w' : World} {bs bs' : List (Addr × Addr)}

/-- What `reactor_lookup` owes its caller, whatever allocations fail: it leaves the pointer
`r` and the world `w'` with the blocks `bs'`. -/
structure LookupOutcome (ok : ℕ → Bool) (w : World) (bs : List (Addr × Addr)) (fd : ℤ)
    (r : Option ItemPtr) (w' : World) (bs' : List (Addr × Addr)) : Prop where
  /-- It returns. -/
  returns : ∃ n, ∀ fuel, n ≤ fuel → reactorLookup ok fuel w fd = .ok (r, w')
  /-- `block_count` is the length of the list, and every block has its items. -/
  table : Represents w' bs'
  /-- The list may have grown at its end. -/
  grown : bs <+: bs'
  /-- The existing items are as before. -/
  items : ∀ q item, w.readItem q = .ok item → w'.readItem q = .ok item
  /-- A pointer that is not null points to the item of the descriptor. -/
  item : ∀ p, r = some p → ItemAt bs' fd p
  /-- Null stands for a table that could not be grown as far as the descriptor. -/
  null : r = none → bs'.length ≤ fd.toNat / itemLength

/-- `reactor_lookup` survives the failures of `malloc`. -/
def Survives (ok : ℕ → Bool) (w : World) (bs : List (Addr × Addr)) (fd : ℤ) : Prop :=
  ∃ r w' bs', LookupOutcome ok w bs fd r w' bs'

lemma Represents.survives (h : Represents w bs) {fd : ℤ} (hfd : 0 < fd)
    (hpairs : PairsOk ok w.calls (fd.toNat / itemLength + 1 - bs.length)) :
    Survives ok w bs fd := by
  obtain ⟨p, w', bs', hret, hext, hrep, hpre, -, hitem⟩ := h.lookup_of_pairs hfd hpairs
  refine ⟨some p, w', bs', hret, hrep, hpre, fun q item hq => hext.readItem hq, ?_, ?_⟩
  · rintro q hq
    obtain rfl := Option.some.inj hq
    exact hitem
  · intro hnull
    cases hnull

/-- **Lookups and failing allocations.**  In every state of the reactor, `reactor_lookup`
survives exactly if, from now on, `malloc` succeeds twice in a row for every block that is
missing. -/
theorem lookup_survives_iff (h : Represents w bs) {fd : ℤ} (hfd : 0 < fd) :
    Survives ok w bs fd ↔ PairsOk ok w.calls (fd.toNat / itemLength + 1 - bs.length) := by
  constructor
  · rintro ⟨r, w', bs', hout⟩
    exact h.pairsOk_of_returns hfd hout.returns
  · exact h.survives hfd

/-- Two blocks are missing, and `malloc` fails every third time. -/
theorem lookup_survives_thirdFails : Survives (fun n => n % 3 != 2) World.zero [] 1500 := by
  have hpairs : PairsOk (fun n => n % 3 != 2) 0 2 :=
    ⟨0, le_rfl, rfl, rfl, 3, by decide, rfl, rfl, trivial⟩
  exact (lookup_survives_iff represents_zero (show (0 : ℤ) < 1500 by decide)).2 hpairs

/-- There is no memory at all: the first lookup in the zeroed reactor never returns. -/
theorem lookupHangs :
    Represents World.zero [] ∧ ¬ Survives (fun _ => false) World.zero [] 5 ∧
      ∀ fuel, reactorLookup (fun _ => false) fuel World.zero 5 = .error .fuel := by
  have hpairs : ¬ PairsOk (fun _ => false) 0 1 := by
    rintro ⟨m, -, hok, -⟩
    cases hok
  have hnever : ∀ fuel, reactorLookup (fun _ => false) fuel World.zero 5 = .error .fuel :=
    fun fuel => represents_zero.lookup_never (by decide) hpairs (Nat.zero_le fuel)
  refine ⟨represents_zero, ?_, hnever⟩
  rintro ⟨r, w', bs', hout⟩
  exact hpairs (represents_zero.pairsOk_of_returns (by decide) hout.returns)

/-- **Sessions in which allocations fail.**  Whatever a user has looked up and written before,
and whatever allocations have failed: the table is right, and the next lookup survives or
hangs. -/
theorem Session.Reach.survives_or_hangs {s : Session} (h : s.Reach ok) {fd : ℤ} (hfd : 0 < fd) :
    ∃ bs, Represents s.world bs ∧ (∀ x ∈ s.returned, ItemAt bs x.1 x.2) ∧
      (Survives ok s.world bs fd ∨ ∀ fuel, fd.toNat / itemLength ≤ fuel →
        reactorLookup ok fuel s.world fd = .error .fuel) := by
  obtain ⟨bs, hs⟩ := h.inv
  refine ⟨bs, hs.represents, fun x hx => (hs.returned x hx).2, ?_⟩
  by_cases hpairs : PairsOk ok s.world.calls (fd.toNat / itemLength + 1 - bs.length)
  · exact Or.inl (hs.represents.survives hfd hpairs)
  · exact Or.inr fun fuel hfuel => hs.represents.lookup_never hfd hpairs hfuel

end CppExample.C1000k
