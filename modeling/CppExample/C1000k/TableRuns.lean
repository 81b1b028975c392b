/-
# Sequences of lookups

Any sequence of calls of `reactor_lookup`, with writes through the returned pointers in
between, from the zeroed reactor on.  After every call the table is what it should be:
`table_correct`.
-/
import CppExample.C1000k.Table

namespace CppExample.C1000k
open Lib

variable {ok : ℕ → Bool} {w w' w'' : World} {bs bs' : List (Addr × Addr)}

/-! ## Items -/

/-- A write through a pointer to an item. -/
lemma World.writeItem_eq {p : ItemPtr} {items : List SockItem}
    (ha : w.heap.arrays p.array = some items) (hi : p.index < items.length) (item : SockItem) :
    w.writeItem p item = .ok (w.setArray p.array (some (items.set p.index item))) := by
  simp only [World.writeItem, deref_some ha, ok_bind, store_singleton hi]
  rfl

/-- A read through a pointer to an item, and what it says of the memory. -/
lemma World.readItem_eq_ok {p : ItemPtr} {item : SockItem} :
    w.readItem p = .ok item ↔
      ∃ items, w.heap.arrays p.array = some items ∧ items[p.index]? = some item := by
  rw [World.readItem, deref, Option.bind_some]
  cases ha : w.heap.arrays p.array with
  | none => simp [bind, Except.bind]
  | some items =>
    simp only [ok_bind, load, Option.some.injEq, exists_eq_left']
    cases hi : items[p.index]? with
    | none => simp
    | some item' => simp

/-- Existing items keep their contents. -/
lemma Extends.readItem (h : Extends w w') {p : ItemPtr} {item : SockItem}
    (hp : w.readItem p = .ok item) : w'.readItem p = .ok item := by
  obtain ⟨items, ha, hi⟩ := World.readItem_eq_ok.1 hp
  exact World.readItem_eq_ok.2 ⟨items, h.arrays _ _ ha, hi⟩

/-- A write of an item does not change the table. -/
lemma Represents.setArray (h : Represents w bs) {a : Addr} {items items' : List SockItem}
    (ha : w.heap.arrays a = some items) (hlen : items'.length = items.length) :
    Represents (w.setArray a (some items')) bs := by
  refine ⟨h.chain, h.count, fun x hx => ?_, h.nodup, h.arrays_nodup, fun b hb => ?_⟩
  · obtain ⟨items₀, hi, hl⟩ := h.live x hx
    by_cases hxa : x.2 = a
    · rw [hxa, ha] at hi
      obtain rfl := Option.some.inj hi
      refine ⟨items', ?_, hlen.trans hl⟩
      rw [hxa]
      exact Function.update_self _ _ _
    · exact ⟨items₀, (Function.update_of_ne hxa _ _).trans hi, hl⟩
  · obtain ⟨h1, h2, h3⟩ := h.fresh b hb
    have hne : b ≠ a := by
      rintro rfl
      rw [h2] at ha
      cases ha
    exact ⟨h1, (Function.update_of_ne hne _ _).trans h2, h3⟩

/-! ## The item of a descriptor -/

lemma ItemAt.mono {fd : ℤ} {p : ItemPtr} (h : ItemAt bs fd p) (hpre : bs <+: bs') :
    ItemAt bs' fd p := by
  obtain ⟨a, ha, hi⟩ := h
  obtain ⟨l, rfl⟩ := hpre
  have hlt := (List.getElem?_eq_some_iff.1 ha).1
  exact ⟨a, (List.getElem?_append_left hlt).trans ha, hi⟩

lemma itemLength_pos : 0 < itemLength := by decide

/-- The item of a descriptor is there. -/
lemma Represents.itemAt_live (h : Represents w bs) {fd : ℤ} {p : ItemPtr}
    (hp : ItemAt bs fd p) :
    ∃ items, w.heap.arrays p.array = some items ∧ p.index < items.length := by
  obtain ⟨a, ha, hi⟩ := hp
  obtain ⟨items, hitems, hlen⟩ := h.live _ (List.mem_of_getElem? ha)
  refine ⟨items, hitems, ?_⟩
  rw [hlen, hi]
  exact Nat.mod_lt _ itemLength_pos

/-- Distinct descriptors have distinct items, and a descriptor has one. -/
lemma Represents.itemAt_inj (h : Represents w bs) {fd fd' : ℤ} (hfd : 0 < fd) (hfd' : 0 < fd')
    {p p' : ItemPtr} (hp : ItemAt bs fd p) (hp' : ItemAt bs fd' p') : p = p' ↔ fd = fd' := by
  obtain ⟨a, ha, hi⟩ := hp
  obtain ⟨a', ha', hi'⟩ := hp'
  constructor
  · rintro rfl
    -- the arrays of different blocks are different, so the blocks are the same
    have hmap : (bs.map Prod.snd)[fd.toNat / itemLength]? = some p.array := by
      rw [List.getElem?_map, ha]
      rfl
    have hmap' : (bs.map Prod.snd)[fd'.toNat / itemLength]? = some p.array := by
      rw [List.getElem?_map, ha']
      rfl
    have hlt := (List.getElem?_eq_some_iff.1 hmap).1
    have hdiv : fd.toNat / itemLength = fd'.toNat / itemLength :=
      (List.getElem?_inj hlt h.arrays_nodup).1 (hmap.trans hmap'.symm)
    have hnat : fd.toNat = fd'.toNat := by
      rw [← Nat.div_add_mod fd.toNat itemLength, ← Nat.div_add_mod fd'.toNat itemLength, hdiv,
        ← hi, ← hi']
    omega
  · rintro rfl
    rw [ha, Option.some.injEq, Prod.mk.injEq] at ha'
    cases p
    cases p'
    simp only [ItemPtr.mk.injEq]
    exact ⟨ha'.2, hi.trans hi'.symm⟩

lemma Returns.unique {fd : ℤ} {p p' : ItemPtr} (h : Returns ok w fd p w')
    (h' : Returns ok w fd p' w'') : p = p' ∧ w' = w'' := by
  have heq := eq_of_enough_fuel h h'
  simpa using heq

/-! ## Runs -/

/-- A user of the reactor, with the pointers that were returned so far. -/
structure Session where
  world : World
  returned : List (ℤ × ItemPtr)

/-- The zeroed reactor. -/
def Session.zero : Session := ⟨World.zero, []⟩

/-- What a user can do. -/
inductive Session.Step (ok : ℕ → Bool) (s : Session) : Session → Prop
  /-- Look up a descriptor. -/
  | lookup {fd : ℤ} {p : ItemPtr} {w' : World} (hfd : 0 < fd)
      (h : Returns ok s.world fd p w') : Step ok s ⟨w', s.returned ++ [(fd, p)]⟩
  /-- Write through a pointer that was returned. -/
  | write {fd : ℤ} {p : ItemPtr} {w' : World} (item : SockItem) (hp : (fd, p) ∈ s.returned)
      (h : s.world.writeItem p item = .ok w') : Step ok s { s with world := w' }

/-- The states that a user reaches from the zeroed reactor. -/
def Session.Reach (ok : ℕ → Bool) (s : Session) : Prop :=
  Reachable (fun s => s = Session.zero) (Session.Step ok) s

/-- One more than the largest block index of the descriptors; 0 when there is none. -/
def blocksNeeded (fds : List ℤ) : ℕ :=
  (fds.map fun fd => fd.toNat / itemLength + 1).foldl max 0

lemma blocksNeeded_append (fds : List ℤ) (fd : ℤ) :
    blocksNeeded (fds ++ [fd]) = max (blocksNeeded fds) (fd.toNat / itemLength + 1) := by
  rw [blocksNeeded, List.map_append, List.foldl_append]
  rfl

/-- The invariant of a session. -/
structure Session.Inv (s : Session) (bs : List (Addr × Addr)) : Prop where
  represents : Represents s.world bs
  count : bs.length = blocksNeeded (s.returned.map Prod.fst)
  returned : ∀ x ∈ s.returned, 0 < x.1 ∧ ItemAt bs x.1 x.2

/-- Whatever allocations fail: a lookup that never returns is no step. -/
lemma Session.Step.inv {s t : Session} (hst : Session.Step ok s t) (hs : s.Inv bs) :
    ∃ bs', t.Inv bs' := by
  cases hst with
  | @lookup fd p w' hfd h =>
    obtain ⟨p', w'', bs', hret, -, hrep, hpre, hlen, hitem⟩ :=
      hs.represents.lookup_of_pairs hfd (hs.represents.pairsOk_of_returns hfd h)
    obtain ⟨rfl, rfl⟩ := h.unique hret
    refine ⟨bs', hrep, ?_, fun x hx => ?_⟩
    · rw [hlen, hs.count, List.map_append, List.map_singleton, blocksNeeded_append]
    · rcases List.mem_append.1 hx with hx | hx
      · exact ⟨(hs.returned x hx).1, (hs.returned x hx).2.mono hpre⟩
      · rw [List.mem_singleton.1 hx]
        exact ⟨hfd, hitem⟩
  | @write fd p w' item hp h =>
    obtain ⟨items, ha, hi⟩ := hs.represents.itemAt_live (hs.returned _ hp).2
    rw [World.writeItem_eq ha hi, Except.ok.injEq] at h
    subst h
    exact ⟨bs, hs.represents.setArray ha (List.length_set), hs.count, hs.returned⟩

lemma Session.Reach.inv {s : Session} (h : s.Reach ok) : ∃ bs, s.Inv bs := by
  refine Reachable.invariant (I := fun s : Session => ∃ bs, s.Inv bs) ?_ ?_ h
  · rintro s rfl
    exact ⟨[], represents_zero, rfl, fun x hx => absurd hx List.not_mem_nil⟩
  · rintro s t - ⟨bs, hs⟩ hst
    exact hst.inv hs

/-- What the table owes its users, when the list has the blocks `bs`. -/
structure TableCorrect (ok : ℕ → Bool) (s : Session) (bs : List (Addr × Addr)) : Prop where
  /-- The list has `block_count` blocks of `ITEM_LENGTH` items each. -/
  represents : Represents s.world bs
  /-- `block_count` is one more than the largest block index looked up. -/
  count : s.world.r.blockCount = blocksNeeded (s.returned.map Prod.fst)
  /-- Every lookup has returned the item of its descriptor. -/
  returned : ∀ x ∈ s.returned, ItemAt bs x.1 x.2
  /-- Distinct descriptors have got distinct items, and the same one the same. -/
  injective : ∀ x ∈ s.returned, ∀ y ∈ s.returned, x.2 = y.2 ↔ x.1 = y.1
  /-- The next lookup returns, too, if there will be memory for each block that is missing: it
  stays inside the list, returns the item of its descriptor in the list that may have grown, and
  leaves the existing items alone. -/
  lookup : ∀ fd, 0 < fd → PairsOk ok s.world.calls (fd.toNat / itemLength + 1 - bs.length) →
    ∃ p w' bs', Returns ok s.world fd p w' ∧ Represents w' bs' ∧ bs <+: bs' ∧ ItemAt bs' fd p ∧
      ∀ q item, s.world.readItem q = .ok item → w'.readItem q = .ok item
  /-- A call of `reactor_resize` returns and leaves the existing items alone; when it fails,
  it leaves the list and `block_count`, and all of the memory. -/
  resize : ∀ fuel, bs.length ≤ fuel → ∃ c w', reactorResize ok fuel s.world = .ok (c, w') ∧
    (∀ q item, s.world.readItem q = .ok item → w'.readItem q = .ok item) ∧
    (c ≠ 0 → w'.r = s.world.r ∧ w'.heap = s.world.heap)

/-- **The table is correct** after every sequence of lookups and writes, whatever allocations have
failed before. -/
theorem table_correct {s : Session} (h : s.Reach ok) : ∃ bs, TableCorrect ok s bs := by
  obtain ⟨bs, hs⟩ := h.inv
  refine ⟨bs, hs.represents, hs.represents.count.trans hs.count, fun x hx => (hs.returned x hx).2,
    fun x hx y hy => ?_, fun fd hfd hpairs => ?_, fun fuel hfuel => ?_⟩
  · obtain ⟨hx0, hxp⟩ := hs.returned x hx
    obtain ⟨hy0, hyp⟩ := hs.returned y hy
    exact hs.represents.itemAt_inj hx0 hy0 hxp hyp
  · obtain ⟨p, w', bs', hret, hext, hrep, hpre, -, hitem⟩ :=
      hs.represents.lookup_of_pairs hfd hpairs
    exact ⟨p, w', bs', hret, hrep, hpre, hitem, fun q item hq => hext.readItem hq⟩
  · obtain ⟨c, w', heq, hext, hcase⟩ := @Represents.resize_spec ok _ _ hs.represents fuel hfuel
    refine ⟨c, w', heq, fun q item hq => hext.readItem hq, fun hc => ?_⟩
    rcases hcase with ⟨hc0, -⟩ | ⟨-, -, hr, hheap⟩
    · exact absurd hc0 hc
    · exact ⟨hr, hheap⟩

/-- Only the first call of `malloc` fails. -/
def okAfterFirst (n : ℕ) : Bool := n != 0

lemma oftenOk_okAfterFirst : OftenOk okAfterFirst := fun n =>
  ⟨n + 1, Nat.le_succ n, by simp [okAfterFirst], by simp [okAfterFirst]⟩

/-- The descriptors 5 and 1030 were looked up, with the first call of `malloc` failing. -/
theorem table_correct_okAfterFirst : ∃ s : Session, s.Reach okAfterFirst ∧
    s.returned.map Prod.fst = [5, 1030] ∧ s.world.r.blockCount = 2 ∧
    ∃ bs, TableCorrect okAfterFirst s bs := by
  obtain ⟨p, w, bs, hret, -, hrep, -, -, -⟩ :=
    represents_zero.lookup_spec oftenOk_okAfterFirst (show (0 : ℤ) < 5 by decide)
  obtain ⟨p', w', -, hret', -⟩ :=
    hrep.lookup_spec oftenOk_okAfterFirst (show (0 : ℤ) < 1030 by decide)
  have h₀ : Session.zero.Reach okAfterFirst := .of_init rfl
  have hreach : Session.Reach okAfterFirst ⟨w', [(5, p), (1030, p')]⟩ :=
    (h₀.tail (.lookup (by decide) hret)).tail (.lookup (by decide) hret')
  obtain ⟨bs', hcorrect⟩ := table_correct hreach
  have hneeded : blocksNeeded [5, 1030] = 2 := by decide
  exact ⟨_, hreach, rfl, hcorrect.count.trans hneeded, bs', hcorrect⟩

end CppExample.C1000k
