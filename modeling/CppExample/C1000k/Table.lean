/-
# The table of connection contexts

`Represents w bs` says that the linked list of the reactor has the blocks `bs`, given by
their addresses and those of their arrays, and that `block_count` is right.  Each function
of the reactor has one lemma about it.  `lookup_of_pairs` and `lookup_never` say when
`reactor_lookup` returns: there has to be memory for every block that is missing.
`lookup_spec` is the one that the server uses: when allocations succeed often enough,
`reactor_lookup` returns the item of its descriptor, grows the table as far as needed, and
leaves every existing item alone.
-/
import CppExample.C1000k.Reactor
import CppExample.Lib.Run

namespace CppExample.C1000k
open Lib

variable {ok : ℕ → Bool} {w w' w'' : World} {bs bs' : List (Addr × Addr)}

/-- The reactor has the blocks `bs`: their addresses, with those of their arrays. -/
structure Represents (w : World) (bs : List (Addr × Addr)) : Prop where
  chain : IsChain EventBlock.items EventBlock.next w.heap.blocks w.r.eventblocks bs
  /-- `block_count` is the length of the list. -/
  count : w.r.blockCount = bs.length
  /-- Every block has its items. -/
  live : ∀ x ∈ bs, ∃ items, w.heap.arrays x.2 = some items ∧ items.length = itemLength
  nodup : (bs.map Prod.fst).Nodup
  arrays_nodup : (bs.map Prod.snd).Nodup
  /-- No object has a name that is still to be given. -/
  fresh : ∀ a, w.calls ≤ a →
    w.heap.blocks a = none ∧ w.heap.arrays a = none ∧ w.heap.buffers a = none

/-- `w'` has the objects of `w`, unchanged, and perhaps further arrays of zeroed items. -/
structure Extends (w w' : World) : Prop where
  arrays : ∀ a items, w.heap.arrays a = some items → w'.heap.arrays a = some items
  zeroed : ∀ a items, w'.heap.arrays a = some items → w.heap.arrays a = none →
    items = List.replicate itemLength SockItem.zero
  buffers : w'.heap.buffers = w.heap.buffers
  calls : w.calls ≤ w'.calls

lemma Extends.refl (w : World) : Extends w w := by
  refine ⟨fun _ _ h => h, fun _ _ h hn => ?_, rfl, le_rfl⟩
  rw [h] at hn
  cases hn

lemma Extends.trans (h : Extends w w') (h' : Extends w' w'') : Extends w w'' := by
  refine ⟨fun a items ha => h'.arrays a items (h.arrays a items ha), fun a items ha hn => ?_,
    h'.buffers.trans h.buffers, h.calls.trans h'.calls⟩
  cases hmid : w'.heap.arrays a with
  | none => exact h'.zeroed a items ha hmid
  | some items' =>
    rw [h'.arrays a items' hmid] at ha
    obtain rfl := Option.some.inj ha
    exact h.zeroed a _ hmid hn

/-- A failed allocation. -/
lemma Extends.skip (w : World) {n : ℕ} (hn : w.calls ≤ n) : Extends w { w with calls := n } :=
  ⟨(Extends.refl w).arrays, (Extends.refl w).zeroed, rfl, hn⟩

lemma Represents.skip (h : Represents w bs) {n : ℕ} (hn : w.calls ≤ n) :
    Represents { w with calls := n } bs :=
  ⟨h.chain, h.count, h.live, h.nodup, h.arrays_nodup, fun a ha => h.fresh a (hn.trans ha)⟩

lemma represents_zero : Represents World.zero [] :=
  ⟨rfl, rfl, fun _ hx => absurd hx List.not_mem_nil, List.nodup_nil, List.nodup_nil,
    fun _ _ => ⟨rfl, rfl, rfl⟩⟩

/-! ## The names of objects -/

/-- The blocks and the arrays have names that were given before. -/
lemma Represents.lt_calls (h : Represents w bs) {x : Addr × Addr} (hx : x ∈ bs) :
    x.1 < w.calls ∧ x.2 < w.calls := by
  obtain ⟨b, hb, -⟩ := h.chain.node hx
  obtain ⟨items, hi, -⟩ := h.live x hx
  constructor
  · by_contra hge
    rw [(h.fresh x.1 (not_lt.1 hge)).1] at hb
    cases hb
  · by_contra hge
    rw [(h.fresh x.2 (not_lt.1 hge)).2.1] at hi
    cases hi

/-! ## The walks -/

lemma lastLoop_eq {blocks : Addr → Option EventBlock} {l : List (Addr × Addr)} {x : Addr × Addr}
    {a : Addr} {fuel : ℕ}
    (h : IsChain EventBlock.items EventBlock.next blocks (some a) (l ++ [x]))
    (hfuel : l.length < fuel) : lastLoop blocks fuel a = .ok x.1 := by
  induction l generalizing a fuel with
  | nil =>
    obtain ⟨fuel, rfl⟩ := Nat.exists_eq_succ_of_ne_zero (Nat.ne_of_gt hfuel)
    obtain ⟨ha, b, hb, -, hnext⟩ := h
    obtain rfl := Option.some.inj ha
    have hnext' : b.next = none := hnext
    simp only [lastLoop, deref_some hb, ok_bind, hnext']
    rfl
  | cons y l ih =>
    obtain ⟨fuel, rfl⟩ := Nat.exists_eq_succ_of_ne_zero (Nat.ne_of_gt (Nat.zero_lt_of_lt hfuel))
    obtain ⟨ha, b, hb, -, hrest⟩ := h
    obtain rfl := Option.some.inj ha
    have hfuel' : l.length < fuel := by
      rw [List.length_cons] at hfuel
      omega
    cases hnext : b.next with
    | none =>
      rw [hnext] at hrest
      cases l <;> exact absurd hrest.1 (by simp)
    | some a' =>
      rw [hnext] at hrest
      simp only [lastLoop, deref_some hb, ok_bind, hnext]
      exact ih hrest hfuel'

/-- The walk to the end of the list. -/
lemma Represents.lastBlock_eq (h : Represents w bs) {fuel : ℕ} (hfuel : bs.length ≤ fuel) :
    lastBlock fuel w = .ok (bs.getLast?.map Prod.fst) := by
  have hchain := h.chain
  rcases List.eq_nil_or_concat bs with rfl | ⟨l, x, rfl⟩
  · have hnone : w.r.eventblocks = none := hchain
    rw [lastBlock, hnone]
    rfl
  · rw [List.concat_eq_append] at hchain hfuel ⊢
    rw [List.length_append, List.length_singleton] at hfuel
    cases hb : w.r.eventblocks with
    | none =>
      rw [hb] at hchain
      cases l <;> exact absurd hchain.1 (by simp)
    | some a =>
      rw [hb] at hchain
      simp only [lastBlock, hb, lastLoop_eq hchain hfuel, List.getLast?_concat]
      rfl

lemma walkLoop_eq {blocks : Addr → Option EventBlock} {p : Option Addr} {n : ℕ} {x : Addr × Addr}
    (h : IsChain EventBlock.items EventBlock.next blocks p bs) (hn : bs[n]? = some x) :
    walkLoop blocks n p = .ok (some x.1) := by
  induction n generalizing p bs with
  | zero =>
    cases bs with
    | nil => cases hn
    | cons y bs =>
      obtain rfl : y = x := by simpa using hn
      rw [walkLoop, h.1]
  | succ n ih =>
    cases bs with
    | nil => cases hn
    | cons y bs =>
      obtain ⟨rfl, b, hb, -, hrest⟩ := h
      simp only [walkLoop, deref_some hb, ok_bind]
      exact ih hrest (by simpa using hn)

/-! ## `reactor_resize` -/

/-- There is no memory for the items. -/
lemma Represents.resize_noItems (h : Represents w bs) {fuel : ℕ} (hfuel : bs.length ≤ fuel)
    (hok : ok w.calls = false) :
    reactorResize ok fuel w = .ok (-4, { w with calls := w.calls + 1 }) := by
  rw [reactorResize, h.lastBlock_eq hfuel, ok_bind, World.malloc_of_fail hok]
  rfl

/-- The memory in the middle of a call, with the items allocated. -/
def World.withItems (w : World) : World :=
  ({ w with calls := w.calls + 1 } : World).setArray w.calls
    (some (List.replicate itemLength SockItem.zero))

/-- There is no memory for the block: the items are freed again. -/
lemma Represents.resize_noBlock (h : Represents w bs) {fuel : ℕ} (hfuel : bs.length ≤ fuel)
    (hok : ok w.calls = true) (hok' : ok (w.calls + 1) = false) :
    reactorResize ok fuel w = .ok (-5, { w with calls := w.calls + 2 }) := by
  have hfree : w.heap.arrays w.calls = none := (h.fresh w.calls le_rfl).2.1
  have hheap : Function.update (Function.update w.heap.arrays w.calls
      (some (List.replicate itemLength SockItem.zero))) w.calls none = w.heap.arrays := by
    rw [Function.update_idem, ← hfree, Function.update_eq_self]
  have hmalloc : w.withItems.malloc ok = (none, { w.withItems with calls := w.calls + 2 }) :=
    World.malloc_of_fail hok'
  rw [World.withItems] at hmalloc
  simp only [reactorResize, h.lastBlock_eq hfuel, ok_bind, World.malloc_of_ok hok, hmalloc]
  show Except.ok ((-5 : ℤ), World.mk w.r ⟨w.heap.blocks, Function.update (Function.update
    w.heap.arrays w.calls (some (List.replicate itemLength SockItem.zero))) w.calls none,
    w.heap.buffers⟩ (w.calls + 2)) = _
  rw [hheap]

/-- The memory in the middle of a call, with the items and the block allocated. -/
def World.withBlock (w : World) : World :=
  ({ w.withItems with calls := w.calls + 2 } : World).setBlock (w.calls + 1) ⟨w.calls, none⟩

lemma Represents.resize_eq (h : Represents w bs) {fuel : ℕ} (hfuel : bs.length ≤ fuel)
    (hok : ok w.calls = true) (hok' : ok (w.calls + 1) = true) :
    reactorResize ok fuel w
      = (do
          let w' ← appendBlock w.withBlock (bs.getLast?.map Prod.fst) (w.calls + 1)
          return (0, w')) := by
  have hmalloc : w.withItems.malloc ok
      = (some (w.calls + 1), { w.withItems with calls := w.calls + 2 }) :=
    World.malloc_of_ok hok'
  rw [World.withItems] at hmalloc
  simp only [reactorResize, h.lastBlock_eq hfuel, ok_bind, World.malloc_of_ok hok, hmalloc]
  rfl

lemma Represents.extends_withBlock (h : Represents w bs) : Extends w w.withBlock := by
  refine ⟨fun a items ha => ?_, fun a items ha hn => ?_, rfl, Nat.le_add_right _ _⟩
  · have hne : a ≠ w.calls := by
      rintro rfl
      rw [(h.fresh w.calls le_rfl).2.1] at ha
      cases ha
    exact (Function.update_of_ne hne _ _).trans ha
  · by_cases heq : a = w.calls
    · subst heq
      have hself : w.withBlock.heap.arrays w.calls
          = some (List.replicate itemLength SockItem.zero) := Function.update_self _ _ _
      rw [hself] at ha
      exact (Option.some.inj ha).symm
    · have hne : w.withBlock.heap.arrays a = w.heap.arrays a := Function.update_of_ne heq _ _
      rw [hne, hn] at ha
      cases ha

/-- The parts of `Represents` that a successful call establishes, whatever the blocks. -/
lemma Represents.of_append (h : Represents w bs)
    (hchain : IsChain EventBlock.items EventBlock.next w'.heap.blocks w'.r.eventblocks
      (bs ++ [(w.calls + 1, w.calls)]))
    (hcount : w'.r.blockCount = w.r.blockCount + 1)
    (harrays : w'.heap.arrays = w.withBlock.heap.arrays)
    (hbuffers : w'.heap.buffers = w.heap.buffers) (hcalls : w'.calls = w.calls + 2)
    (hblocks : ∀ a, w.calls + 2 ≤ a → w'.heap.blocks a = none) :
    Represents w' (bs ++ [(w.calls + 1, w.calls)]) := by
  refine ⟨hchain, ?_, fun x hx => ?_, ?_, ?_, fun a ha => ?_⟩
  · rw [hcount, h.count, List.length_append, List.length_singleton]
  · rw [harrays]
    rcases List.mem_append.1 hx with hx | hx
    · obtain ⟨items, hi, hlen⟩ := h.live x hx
      exact ⟨items, h.extends_withBlock.arrays _ _ hi, hlen⟩
    · rw [List.mem_singleton.1 hx]
      exact ⟨_, Function.update_self _ _ _, List.length_replicate⟩
  · rw [List.map_append, List.nodup_append]
    refine ⟨h.nodup, List.nodup_singleton _, fun a ha b hb => ?_⟩
    obtain ⟨x, hx, rfl⟩ := List.mem_map.1 ha
    rw [List.mem_singleton.1 hb]
    exact (Nat.lt_succ_of_lt (h.lt_calls hx).1).ne
  · rw [List.map_append, List.nodup_append]
    refine ⟨h.arrays_nodup, List.nodup_singleton _, fun a ha b hb => ?_⟩
    obtain ⟨x, hx, rfl⟩ := List.mem_map.1 ha
    rw [List.mem_singleton.1 hb]
    exact (h.lt_calls hx).2.ne
  · rw [hcalls] at ha
    have hlt : w.calls < a := (Nat.lt_add_of_pos_right Nat.two_pos).trans_le ha
    have hfresh := h.fresh a hlt.le
    refine ⟨hblocks a ha, ?_, by rw [hbuffers]; exact hfresh.2.2⟩
    rw [harrays]
    exact (Function.update_of_ne hlt.ne' _ _).trans hfresh.2.1

/-- The new block is appended to the list. -/
lemma Represents.appendBlock_ok (h : Represents w bs) :
    ∃ w', appendBlock w.withBlock (bs.getLast?.map Prod.fst) (w.calls + 1) = .ok w' ∧
      w'.calls = w.calls + 2 ∧ Extends w w' ∧
      Represents w' (bs ++ [(w.calls + 1, w.calls)]) := by
  have hext := h.extends_withBlock
  have hnew : w.withBlock.heap.blocks (w.calls + 1) = some ⟨w.calls, none⟩ :=
    Function.update_self _ _ _
  have hold : ∀ a, a ≠ w.calls + 1 → w.withBlock.heap.blocks a = w.heap.blocks a :=
    fun a ha => Function.update_of_ne ha _ _
  have hlate : ∀ a, w.calls + 2 ≤ a → w.withBlock.heap.blocks a = none := by
    intro a ha
    have hlt : w.calls + 1 < a := ha
    rw [hold a hlt.ne']
    exact (h.fresh a (Nat.le_of_succ_le hlt.le)).1
  rcases List.eq_nil_or_concat bs with rfl | ⟨l, x, rfl⟩
  · -- the first block
    refine ⟨_, rfl, rfl, ⟨hext.arrays, hext.zeroed, hext.buffers, hext.calls⟩, ?_⟩
    exact h.of_append ⟨rfl, _, hnew, rfl, rfl⟩ rfl rfl rfl rfl hlate
  · -- the last block is redirected to the new one
    rw [List.concat_eq_append] at h ⊢
    obtain ⟨a, n⟩ := x
    obtain ⟨b, hb, hitems⟩ := h.chain.node (List.mem_append_right l (List.mem_singleton_self _))
    have ha : a < w.calls := (h.lt_calls (List.mem_append_right l (List.mem_singleton_self _))).1
    have hderef : deref w.withBlock.heap.blocks (some a) = .ok b :=
      deref_some ((hold a (Nat.lt_succ_of_lt ha).ne).trans hb)
    simp only [List.getLast?_concat, Option.map_some, appendBlock, hderef, ok_bind]
    refine ⟨_, rfl, rfl, ⟨hext.arrays, hext.zeroed, hext.buffers, hext.calls⟩, ?_⟩
    refine h.of_append ?_ rfl rfl rfl rfl fun a' ha' => ?_
    · refine h.chain.snoc (fun y hy => ?_) (Function.update_self _ _ _) hitems rfl
        ((Function.update_of_ne (Nat.lt_succ_of_lt ha).ne' _ _).trans hnew) rfl rfl
      have hya : y.1 ≠ a := by
        have hnd := h.nodup
        rw [List.map_append, List.nodup_append] at hnd
        exact hnd.2.2 y.1 (List.mem_map_of_mem hy) a (List.mem_singleton_self _)
      have hlt := (h.lt_calls (List.mem_append_left _ hy)).1
      exact (Function.update_of_ne hya _ _).trans (hold y.1 (Nat.lt_succ_of_lt hlt).ne)
    · have hne : a' ≠ a := (ha.trans ((Nat.lt_add_of_pos_right Nat.two_pos).trans_le ha')).ne'
      exact (Function.update_of_ne hne _ _).trans (hlate a' ha')

/-- A successful call appends a block of zeroed items. -/
lemma Represents.resize_ok (h : Represents w bs) (hok : ok w.calls = true)
    (hok' : ok (w.calls + 1) = true) :
    ∃ w', (∀ fuel, bs.length ≤ fuel → reactorResize ok fuel w = .ok (0, w')) ∧
      w'.calls = w.calls + 2 ∧ Extends w w' ∧
      Represents w' (bs ++ [(w.calls + 1, w.calls)]) := by
  obtain ⟨w', happ, hcalls, hext, hrep⟩ := h.appendBlock_ok
  refine ⟨w', fun fuel hfuel => ?_, hcalls, hext, hrep⟩
  rw [h.resize_eq hfuel hok hok', happ]
  rfl

/-- What a call of `reactor_resize` can do: it always returns, it leaves the objects that
there are, and when it fails the reactor and the memory are as before. -/
lemma Represents.resize_spec (h : Represents w bs) {fuel : ℕ} (hfuel : bs.length ≤ fuel) :
    ∃ c w', reactorResize ok fuel w = .ok (c, w') ∧ Extends w w' ∧
      ((c = 0 ∧ ∃ x, Represents w' (bs ++ [x])) ∨
        (c ≠ 0 ∧ Represents w' bs ∧ w'.r = w.r ∧ w'.heap = w.heap)) := by
  cases hok : ok w.calls with
  | false =>
    exact ⟨_, _, h.resize_noItems hfuel hok, .skip w (Nat.le_add_right _ _),
      Or.inr ⟨by decide, h.skip (Nat.le_add_right _ _), rfl, rfl⟩⟩
  | true =>
    cases hok' : ok (w.calls + 1) with
    | false =>
      exact ⟨_, _, h.resize_noBlock hfuel hok hok', .skip w (Nat.le_add_right _ _),
        Or.inr ⟨by decide, h.skip (Nat.le_add_right _ _), rfl, rfl⟩⟩
    | true =>
      obtain ⟨w', heq, -, hext, hrep⟩ := h.resize_ok hok hok'
      exact ⟨0, w', heq fuel hfuel, hext, Or.inl ⟨rfl, _, hrep⟩⟩

/-! ## The loop that grows the table -/

/-- From the call `n` of `malloc` on, `k` disjoint pairs of calls in a row succeed. -/
def PairsOk (ok : ℕ → Bool) : ℕ → ℕ → Prop
  | _, 0 => True
  | n, k + 1 => ∃ m, n ≤ m ∧ ok m = true ∧ ok (m + 1) = true ∧ PairsOk ok (m + 2) k

lemma PairsOk.of_le {n n' k : ℕ} (hn : n ≤ n') (h : PairsOk ok n' k) : PairsOk ok n k := by
  cases k with
  | zero => trivial
  | succ k =>
    obtain ⟨m, hm, hok⟩ := h
    exact ⟨m, hn.trans hm, hok⟩

/-- Again and again two calls of `malloc` in a row succeed. -/
def OftenOk (ok : ℕ → Bool) : Prop := ∀ n, ∃ m, n ≤ m ∧ ok m = true ∧ ok (m + 1) = true

lemma OftenOk.of_forall (h : ∀ n, ok n = true) : OftenOk ok := fun n => ⟨n, le_rfl, h n, h (n + 1)⟩

lemma OftenOk.pairsOk (h : OftenOk ok) (n k : ℕ) : PairsOk ok n k := by
  induction k generalizing n with
  | zero => trivial
  | succ k ih =>
    obtain ⟨m, hm, hok, hok'⟩ := h n
    exact ⟨m, hm, hok, hok', ih (m + 2)⟩

/-- The loop ends in `w'`, with all budgets that are large enough. -/
def GrowsTo (ok : ℕ → Bool) (idx : ℕ) (w w' : World) : Prop :=
  ∃ n, ∀ bound fuel, idx ≤ bound → n ≤ fuel → growLoop ok bound idx fuel w = .ok w'

lemma GrowsTo.refl {idx : ℕ} (h : idx < w.r.blockCount) : GrowsTo ok idx w w := by
  refine ⟨1, fun bound fuel _ hfuel => ?_⟩
  obtain ⟨fuel, rfl⟩ := Nat.exists_eq_succ_of_ne_zero (Nat.ne_of_gt hfuel)
  rw [growLoop, if_neg (by omega)]

lemma GrowsTo.step {idx : ℕ} {c : ℤ} (hcount : w.r.blockCount ≤ idx)
    (hr : ∀ bound, idx ≤ bound → reactorResize ok bound w = .ok (c, w'))
    (h : GrowsTo ok idx w' w'') : GrowsTo ok idx w w'' := by
  obtain ⟨n, hn⟩ := h
  refine ⟨n + 1, fun bound fuel hbound hfuel => ?_⟩
  obtain ⟨fuel, rfl⟩ := Nat.exists_eq_succ_of_ne_zero
    (Nat.ne_of_gt ((Nat.succ_pos n).trans_le hfuel))
  rw [growLoop, if_pos hcount, hr bound hbound, ok_bind]
  exact hn bound fuel hbound (by omega)

/-- The loop gets to its next block, whatever allocations fail before `m`. -/
lemma Represents.grow_one {idx m : ℕ} (h : Represents w bs) (hidx : bs.length ≤ idx)
    (hm : w.calls ≤ m) (hok : ok m = true) (hok' : ok (m + 1) = true) :
    ∃ w₁ x, Extends w w₁ ∧ Represents w₁ (bs ++ [x]) ∧ w₁.calls ≤ m + 2 ∧
      ∀ w', GrowsTo ok idx w₁ w' → GrowsTo ok idx w w' := by
  -- by induction on the number of calls before `m`
  obtain ⟨d, hd⟩ : ∃ d, d = m - w.calls := ⟨_, rfl⟩
  induction d using Nat.strong_induction_on generalizing w with
  | _ d ih =>
    have hcount : w.r.blockCount ≤ idx := h.count.trans_le hidx
    cases hc : ok w.calls with
    | false =>
      have hne : w.calls ≠ m := fun heq => by rw [heq, hok] at hc; cases hc
      have hle : w.calls + 1 ≤ m := by omega
      obtain ⟨w₁, x, hext, hrep, hcalls, hgrow⟩ := ih (m - (w.calls + 1)) (by omega)
        (h.skip (Nat.le_add_right _ 1)) hle rfl
      exact ⟨w₁, x, (Extends.skip w (Nat.le_add_right _ 1)).trans hext, hrep, hcalls, fun w' hw' =>
        .step hcount (fun _ hb => h.resize_noItems (hidx.trans hb) hc) (hgrow w' hw')⟩
    | true =>
      cases hc' : ok (w.calls + 1) with
      | false =>
        have hne : w.calls ≠ m := fun heq => by rw [heq, hok'] at hc'; cases hc'
        have hne' : w.calls + 1 ≠ m := fun heq => by rw [heq, hok] at hc'; cases hc'
        have hle : w.calls + 2 ≤ m := by omega
        obtain ⟨w₁, x, hext, hrep, hcalls, hgrow⟩ := ih (m - (w.calls + 2)) (by omega)
          (h.skip (Nat.le_add_right _ 2)) hle rfl
        exact ⟨w₁, x, (Extends.skip w (Nat.le_add_right _ 2)).trans hext, hrep, hcalls,
          fun w' hw' =>
            .step hcount (fun _ hb => h.resize_noBlock (hidx.trans hb) hc hc') (hgrow w' hw')⟩
      | true =>
        obtain ⟨w₁, heq, hcalls, hext, hrep⟩ := h.resize_ok hc hc'
        exact ⟨w₁, _, hext, hrep, by omega, fun w' hw' =>
          .step hcount (fun bound hb => heq bound (hidx.trans hb)) hw'⟩

/-- The loop ends, with the table grown as far as needed, if there is a pair of successful
calls of `malloc` for each block that is missing. -/
lemma Represents.grow_spec (h : Represents w bs) {idx : ℕ}
    (hpairs : PairsOk ok w.calls (idx + 1 - bs.length)) :
    ∃ w' bs', GrowsTo ok idx w w' ∧ Extends w w' ∧ Represents w' bs' ∧ bs <+: bs' ∧
      bs'.length = max bs.length (idx + 1) := by
  -- by induction on the number of blocks that are missing
  obtain ⟨d, hd⟩ : ∃ d, d = idx + 1 - bs.length := ⟨_, rfl⟩
  induction d generalizing w bs with
  | zero =>
    refine ⟨w, bs, .refl ?_, .refl w, h, List.prefix_rfl, by omega⟩
    rw [h.count]
    omega
  | succ d ih =>
    rw [← hd] at hpairs
    obtain ⟨m, hm, hok, hok', hrest⟩ := hpairs
    have hidx : bs.length ≤ idx := by omega
    obtain ⟨w₁, x, hext, hrep, hcalls, hgrow⟩ := h.grow_one hidx hm hok hok'
    have hlen : (bs ++ [x]).length = bs.length + 1 := by simp
    have hd' : d = idx + 1 - (bs ++ [x]).length := by omega
    obtain ⟨w', bs', hw', hext', hrep', hpre, hmax⟩ :=
      ih hrep (hd' ▸ hrest.of_le hcalls) hd'
    exact ⟨w', bs', hgrow w' hw', hext.trans hext', hrep', (List.prefix_append _ _).trans hpre,
      by omega⟩

/-- Otherwise the loop never ends. -/
lemma Represents.grow_never (h : Represents w bs) {idx bound : ℕ} (hbound : idx ≤ bound)
    (hpairs : ¬ PairsOk ok w.calls (idx + 1 - bs.length)) (fuel : ℕ) :
    growLoop ok bound idx fuel w = .error .fuel := by
  induction fuel generalizing w bs with
  | zero => rfl
  | succ fuel ih =>
    have hidx : bs.length ≤ idx := by
      by_contra hlt
      rw [show idx + 1 - bs.length = 0 by omega] at hpairs
      exact hpairs trivial
    have hfuel := hidx.trans hbound
    rw [growLoop, if_pos (h.count.trans_le hidx)]
    cases hc : ok w.calls with
    | false =>
      rw [h.resize_noItems hfuel hc, ok_bind]
      exact ih (h.skip (Nat.le_add_right _ 1))
        fun hp => hpairs (hp.of_le (Nat.le_add_right _ 1))
    | true =>
      cases hc' : ok (w.calls + 1) with
      | false =>
        rw [h.resize_noBlock hfuel hc hc', ok_bind]
        exact ih (h.skip (Nat.le_add_right _ 2))
          fun hp => hpairs (hp.of_le (Nat.le_add_right _ 2))
      | true =>
        obtain ⟨w₁, heq, hcalls, -, hrep⟩ := h.resize_ok hc hc'
        rw [heq bound hfuel, ok_bind]
        refine ih hrep fun hp => hpairs ?_
        -- the block that was just appended has used the first pair
        rw [hcalls, List.length_append, List.length_singleton] at hp
        rw [show idx + 1 - bs.length = idx + 1 - (bs.length + 1) + 1 by omega]
        exact ⟨w.calls, le_rfl, hc, hc', hp⟩

/-! ## `reactor_lookup` -/

/-- The item of a descriptor, in a table with the blocks `bs`. -/
def ItemAt (bs : List (Addr × Addr)) (fd : ℤ) (p : ItemPtr) : Prop :=
  ∃ a, bs[fd.toNat / itemLength]? = some (a, p.array) ∧ p.index = fd.toNat % itemLength

/-- **`reactor_lookup`**, when there is memory for the blocks that are missing. -/
lemma Represents.lookup_of_pairs (h : Represents w bs) {fd : ℤ} (hfd : 0 < fd)
    (hpairs : PairsOk ok w.calls (fd.toNat / itemLength + 1 - bs.length)) :
    ∃ p w' bs', Returns ok w fd p w' ∧ Extends w w' ∧ Represents w' bs' ∧ bs <+: bs' ∧
      bs'.length = max bs.length (fd.toNat / itemLength + 1) ∧ ItemAt bs' fd p := by
  obtain ⟨w', bs', ⟨n, hn⟩, hext, hrep, hpre, hlen⟩ := h.grow_spec hpairs
  have hlt : fd.toNat / itemLength < bs'.length := by omega
  obtain ⟨x, hx⟩ : ∃ x, bs'[fd.toNat / itemLength]? = some x :=
    ⟨_, List.getElem?_eq_getElem hlt⟩
  obtain ⟨b, hb, hitems⟩ := hrep.chain.node (List.mem_of_getElem? hx)
  refine ⟨⟨x.2, fd.toNat % itemLength⟩, w', bs', ⟨max n (fd.toNat / itemLength), ?_⟩, hext,
    hrep, hpre, hlen, x.1, hx, rfl⟩
  intro fuel hfuel
  have hgrow := hn fuel fuel ((le_max_right _ _).trans hfuel) ((le_max_left _ _).trans hfuel)
  rw [reactorLookup, if_neg (not_le.2 hfd)]
  simp only [hgrow, ok_bind, walkLoop_eq hrep.chain hx, deref_some hb, hitems]
  rfl

/-- Otherwise the call never returns, whatever the budget. -/
lemma Represents.lookup_never (h : Represents w bs) {fd : ℤ} (hfd : 0 < fd)
    (hpairs : ¬ PairsOk ok w.calls (fd.toNat / itemLength + 1 - bs.length)) {fuel : ℕ}
    (hfuel : fd.toNat / itemLength ≤ fuel) : reactorLookup ok fuel w fd = .error .fuel := by
  rw [reactorLookup, if_neg (not_le.2 hfd)]
  simp only [h.grow_never hfuel hpairs]
  rfl

/-- A call that returns has found memory for the blocks that were missing. -/
lemma Represents.pairsOk_of_returns (h : Represents w bs) {fd : ℤ} (hfd : 0 < fd)
    {r : Option ItemPtr × World}
    (hret : ∃ n, ∀ fuel, n ≤ fuel → reactorLookup ok fuel w fd = .ok r) :
    PairsOk ok w.calls (fd.toNat / itemLength + 1 - bs.length) := by
  by_contra hpairs
  obtain ⟨n, hn⟩ := hret
  have hok := hn (max n (fd.toNat / itemLength)) (le_max_left _ _)
  rw [h.lookup_never hfd hpairs (le_max_right _ _)] at hok
  cases hok

/-- **`reactor_lookup`.**  It returns the item of its descriptor, after the table has been
grown as far as needed. -/
theorem Represents.lookup_spec (hoften : OftenOk ok) (h : Represents w bs) {fd : ℤ}
    (hfd : 0 < fd) :
    ∃ p w' bs', Returns ok w fd p w' ∧ Extends w w' ∧ Represents w' bs' ∧ bs <+: bs' ∧
      bs'.length = max bs.length (fd.toNat / itemLength + 1) ∧ ItemAt bs' fd p :=
  h.lookup_of_pairs hfd (hoften.pairsOk _ _)

end CppExample.C1000k
