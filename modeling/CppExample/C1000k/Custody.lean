/-
# Who has which buffer

`Custody` is the invariant of the memory of the c1000k server, whatever allocations succeed:
the item of an open connection names the connection and its two buffers, a buffer that was
allocated is live and has the contents `buf`, and no two of them are the same.  A buffer
that could not be allocated is a null pointer in the item.

There is one lemma for each thing that the server does with the memory.
-/
import CppExample.C1000k.Server
import CppExample.C1000k.TableRuns

namespace CppExample.C1000k
open Lib

/-- The two buffers of a connection. -/
inductive Side where
  | rbuf
  | wbuf
deriving DecidableEq, Repr

variable {ok : ℕ → Bool} {w w' : World} {bs bs' : List (Addr × Addr)} {conns : Finset ℤ}
  {addr : ℤ × Side → Option Addr} {buf : ℤ × Side → List UInt8}

/-- The invariant of the memory: `addr` has the addresses of the buffers, `buf` their
contents. -/
structure Custody (w : World) (conns : Finset ℤ) (bs : List (Addr × Addr))
    (addr : ℤ × Side → Option Addr) (buf : ℤ × Side → List UInt8) : Prop where
  represents : Represents w bs
  pos : ∀ fd ∈ conns, 0 < fd
  item : ∀ fd ∈ conns, ∃ p, ItemAt bs fd p ∧
    w.readItem p = .ok ⟨fd, addr (fd, .rbuf), 0, addr (fd, .wbuf), 0⟩
  live : ∀ x : ℤ × Side, x.1 ∈ conns → ∀ a, addr x = some a →
    w.heap.buffers a = some (buf x)
  apart : ∀ x y : ℤ × Side, x.1 ∈ conns → y.1 ∈ conns → ∀ a, addr x = some a →
    addr y = some a → x = y

/-! ## The table -/

/-- What `reactor_lookup` has done when it returns, whatever allocations have failed. -/
lemma Represents.grow_of_eq {bound idx fuel : ℕ} (h : Represents w bs)
    (hbound : max bs.length (idx + 1) ≤ bound) (heq : growLoop ok bound idx fuel w = .ok w') :
    Extends w w' ∧ ∃ bs', Represents w' bs' ∧ bs <+: bs' ∧ idx < bs'.length := by
  induction fuel generalizing w bs with
  | zero => cases heq
  | succ fuel ih =>
    rw [growLoop] at heq
    split at heq
    · next hcount =>
      rw [h.count] at hcount
      have hle : bs.length ≤ bound := (le_max_left _ _).trans hbound
      obtain ⟨c, w₁, hr, hext, hcase⟩ := @Represents.resize_spec ok w bs h bound hle
      rw [hr, ok_bind] at heq
      rcases hcase with ⟨-, x, hrep⟩ | ⟨-, hrep, -, -⟩
      · have hlen : (bs ++ [x]).length = bs.length + 1 := by simp
        obtain ⟨hext', bs', hrep', hpre, hlt⟩ := ih hrep (by omega) heq
        exact ⟨hext.trans hext', bs', hrep', (List.prefix_append _ _).trans hpre, hlt⟩
      · obtain ⟨hext', hrest⟩ := ih hrep hbound heq
        exact ⟨hext.trans hext', hrest⟩
    · next hcount =>
      rw [h.count] at hcount
      cases heq
      exact ⟨.refl _, bs, h, List.prefix_rfl, by omega⟩

lemma Represents.lookupItem_of_eq {fuel : ℕ} {fd : ℤ} {p : ItemPtr} (h : Represents w bs)
    (hfuel : max bs.length (fd.toNat / itemLength + 1) ≤ fuel)
    (heq : lookupItem ok fuel w fd = .ok (p, w')) :
    0 < fd ∧ Extends w w' ∧ ∃ bs', Represents w' bs' ∧ bs <+: bs' ∧ ItemAt bs' fd p := by
  obtain ⟨⟨q, w₁⟩, hlookup, hmatch⟩ := bind_eq_ok.1 heq
  rw [reactorLookup] at hlookup
  split at hlookup
  · cases hlookup
    cases hmatch
  · next hpos =>
    obtain ⟨w₂, hgrow, hrest⟩ := bind_eq_ok.1 hlookup
    obtain ⟨hext, bs', hrep, hpre, hlt⟩ := h.grow_of_eq hfuel hgrow
    obtain ⟨x, hx⟩ : ∃ x, bs'[fd.toNat / itemLength]? = some x :=
      ⟨_, List.getElem?_eq_getElem hlt⟩
    obtain ⟨b, hb, hitems⟩ := hrep.chain.node (List.mem_of_getElem? hx)
    simp only [walkLoop_eq hrep.chain hx, ok_bind, deref_some hb, hitems] at hrest
    cases hrest
    cases hmatch
    exact ⟨not_le.1 hpos, hext, bs', hrep, hpre, x.1, hx, rfl⟩

/-- The table may have grown. -/
lemma Custody.grow (h : Custody w conns bs addr buf) (hext : Extends w w')
    (hrep : Represents w' bs') (hpre : bs <+: bs') : Custody w' conns bs' addr buf := by
  refine ⟨hrep, h.pos, fun fd hfd => ?_, fun x hx a ha => ?_, h.apart⟩
  · obtain ⟨p, hp, hread⟩ := h.item fd hfd
    exact ⟨p, hp.mono hpre, hext.readItem hread⟩
  · rw [hext.buffers]
    exact h.live x hx a ha

/-- What the pointer to the item of an open connection reads. -/
lemma Custody.readItem (h : Custody w conns bs addr buf) {fd : ℤ} (hfd : fd ∈ conns)
    {p : ItemPtr} (hp : ItemAt bs fd p) :
    w.readItem p = .ok ⟨fd, addr (fd, .rbuf), 0, addr (fd, .wbuf), 0⟩ := by
  obtain ⟨q, hq, hread⟩ := h.item fd hfd
  have hpos := h.pos fd hfd
  rw [(h.represents.itemAt_inj hpos hpos hp hq).2 rfl]
  exact hread

/-! ## Items -/

/-- A write of an item is not seen through other pointers. -/
lemma World.readItem_setArray_ne {p q : ItemPtr} {items : List SockItem} {item : SockItem}
    (ha : w.heap.arrays p.array = some items) (hne : q ≠ p) (item' : SockItem)
    (hq : w.readItem q = .ok item) :
    (w.setArray p.array (some (items.set p.index item'))).readItem q = .ok item := by
  obtain ⟨items', ha', hi'⟩ := World.readItem_eq_ok.1 hq
  refine World.readItem_eq_ok.2 ?_
  by_cases harr : q.array = p.array
  · have hidx : p.index ≠ q.index := by
      intro heq
      cases p
      cases q
      simp_all
    rw [harr, ha, Option.some.injEq] at ha'
    refine ⟨items.set p.index item', ?_, ?_⟩
    · rw [harr]
      exact Function.update_self _ _ _
    · rw [List.getElem?_set_ne hidx, ha']
      exact hi'
  · exact ⟨items', (Function.update_of_ne harr _ _).trans ha', hi'⟩

/-- A write of the item of a connection that is not open keeps the invariant. -/
lemma Custody.writeItem (h : Custody w conns bs addr buf) {fd : ℤ} (hpos : 0 < fd)
    (hfd : fd ∉ conns) {p : ItemPtr} (hp : ItemAt bs fd p) (item : SockItem) :
    ∃ w', w.writeItem p item = .ok w' ∧ Custody w' conns bs addr buf ∧
      w'.readItem p = .ok item ∧ w'.heap.buffers = w.heap.buffers ∧ w'.calls = w.calls := by
  obtain ⟨items, ha, hi⟩ := h.represents.itemAt_live hp
  refine ⟨_, World.writeItem_eq ha hi item, ⟨h.represents.setArray ha List.length_set, h.pos,
    fun fd' hfd' => ?_, h.live, h.apart⟩,
    World.readItem_eq_ok.2 ⟨_, Function.update_self _ _ _, ?_⟩, rfl, rfl⟩
  · obtain ⟨q, hq, hread⟩ := h.item fd' hfd'
    have hne : q ≠ p := by
      intro heq
      rw [h.represents.itemAt_inj (h.pos fd' hfd') hpos hq hp] at heq
      exact hfd (heq ▸ hfd')
    exact ⟨q, hq, World.readItem_setArray_ne ha hne item hread⟩
  · rw [List.getElem?_set_self hi]

/-! ## Buffers -/

lemma Represents.lt_of_buffer (h : Represents w bs) {a : Addr} {x : List UInt8}
    (ha : w.heap.buffers a = some x) : a < w.calls := by
  by_contra hge
  rw [(h.fresh a (not_lt.1 hge)).2.2] at ha
  cases ha

lemma Represents.setBuffer (h : Represents w bs) {a : Addr} (ha : a < w.calls)
    (x : Option (List UInt8)) : Represents (w.setBuffer a x) bs := by
  refine ⟨h.chain, h.count, h.live, h.nodup, h.arrays_nodup, fun b hb => ?_⟩
  obtain ⟨h1, h2, h3⟩ := h.fresh b hb
  exact ⟨h1, h2, (Function.update_of_ne (ha.trans_le hb).ne' _ _).trans h3⟩

/-- The buffers have names that were given before. -/
lemma Custody.addr_lt (h : Custody w conns bs addr buf) {x : ℤ × Side} (hx : x.1 ∈ conns)
    {a : Addr} (ha : addr x = some a) : a < w.calls :=
  h.represents.lt_of_buffer (h.live x hx a ha)

/-- A buffer of an open connection is written. -/
lemma Custody.setBuffer (h : Custody w conns bs addr buf) {x : ℤ × Side} (hx : x.1 ∈ conns)
    {a : Addr} (ha : addr x = some a) (bytes : List UInt8) :
    Custody (w.setBuffer a (some bytes)) conns bs addr (Function.update buf x bytes) := by
  refine ⟨h.represents.setBuffer (h.addr_lt hx ha) _, h.pos, h.item, fun y hy b hb => ?_,
    h.apart⟩
  by_cases hyx : y = x
  · subst hyx
    obtain rfl : b = a := Option.some.inj (hb.symm.trans ha)
    rw [Function.update_self]
    exact Function.update_self _ _ _
  · have hne : b ≠ a := fun heq => hyx (h.apart y x hy hx a (heq ▸ hb) ha)
    rw [Function.update_of_ne hyx]
    exact (Function.update_of_ne hne _ _).trans (h.live y hy b hb)

/-- An open connection is forgotten. -/
lemma Custody.erase (h : Custody w conns bs addr buf) (fd : ℤ) :
    Custody w (conns.erase fd) bs addr buf :=
  ⟨h.represents, fun fd' hfd' => h.pos fd' (Finset.mem_of_mem_erase hfd'),
    fun fd' hfd' => h.item fd' (Finset.mem_of_mem_erase hfd'),
    fun x hx => h.live x (Finset.mem_of_mem_erase hx),
    fun x y hx hy => h.apart x y (Finset.mem_of_mem_erase hx) (Finset.mem_of_mem_erase hy)⟩

/-- A buffer that belongs to none of the connections is written, or freed. -/
lemma Custody.setOther (h : Custody w conns bs addr buf) {a : Addr} (hlt : a < w.calls)
    (hnot : ∀ x : ℤ × Side, x.1 ∈ conns → addr x ≠ some a) (bytes : Option (List UInt8)) :
    Custody (w.setBuffer a bytes) conns bs addr buf := by
  refine ⟨h.represents.setBuffer hlt _, h.pos, h.item, fun x hx b hb => ?_, h.apart⟩
  have hne : b ≠ a := fun heq => hnot x hx (heq ▸ hb)
  exact (Function.update_of_ne hne _ _).trans (h.live x hx b hb)

/-- A call of `malloc` that is not used. -/
lemma Custody.skip (h : Custody w conns bs addr buf) {n : ℕ} (hn : w.calls ≤ n) :
    Custody { w with calls := n } conns bs addr buf :=
  ⟨h.represents.skip hn, h.pos, h.item, h.live, h.apart⟩

/-- The memory after a successful call of `calloc`. -/
def World.withBuffer (w : World) (n : ℕ) : World :=
  ({ w with calls := w.calls + 1 } : World).setBuffer w.calls (some (List.replicate n 0))

lemma World.calloc_of_ok (hok : ok w.calls = true) (n : ℕ) :
    w.calloc ok n = (some w.calls, w.withBuffer n) := by
  rw [World.calloc, World.malloc_of_ok hok]
  rfl

lemma World.calloc_of_fail (hok : ok w.calls = false) (n : ℕ) :
    w.calloc ok n = (none, { w with calls := w.calls + 1 }) := by
  rw [World.calloc, World.malloc_of_fail hok]

lemma Custody.withBuffer (h : Custody w conns bs addr buf) (n : ℕ) :
    Custody (w.withBuffer n) conns bs addr buf := by
  refine (h.skip (Nat.le_succ _)).setOther (Nat.lt_succ_self w.calls) (fun x hx ha => ?_) _
  exact lt_irrefl _ (h.addr_lt hx ha)

/-- A new connection, with buffers that are null or its own. -/
lemma Custody.insert (h : Custody w conns bs addr buf) {c : ℤ} (hpos : 0 < c) (hc : c ∉ conns)
    {p : ItemPtr} (hp : ItemAt bs c p) {new : Side → Option Addr} {x : List UInt8}
    (hread : w.readItem p = .ok ⟨c, new .rbuf, 0, new .wbuf, 0⟩)
    (hlive : ∀ d a, new d = some a → w.heap.buffers a = some x)
    (hapart : ∀ d d' a, new d = some a → new d' = some a → d = d')
    (hother : ∀ y : ℤ × Side, y.1 ∈ conns → ∀ d a, new d = some a → addr y ≠ some a) :
    Custody w (insert c conns) bs (fun y => if y.1 = c then new y.2 else addr y)
      (fun y => if y.1 = c then x else buf y) := by
  have hne : ∀ fd ∈ conns, fd ≠ c := fun fd hfd heq => hc (heq ▸ hfd)
  refine ⟨h.represents, fun fd hfd => ?_, fun fd hfd => ?_, fun y hy a ha => ?_,
    fun y z hy hz a ha ha' => ?_⟩
  · rcases Finset.mem_insert.1 hfd with rfl | hmem
    · exact hpos
    · exact h.pos fd hmem
  · rcases Finset.mem_insert.1 hfd with rfl | hmem
    · exact ⟨p, hp, by simpa using hread⟩
    · simpa [hne fd hmem] using h.item fd hmem
  · by_cases hyc : y.1 = c
    · rw [if_pos hyc] at ha ⊢
      exact hlive y.2 a ha
    · rw [if_neg hyc] at ha ⊢
      exact h.live y (Finset.mem_of_mem_insert_of_ne hy hyc) a ha
  · -- an address of the new connection is not one of the others
    by_cases hyc : y.1 = c
    · by_cases hzc : z.1 = c
      · rw [if_pos hyc] at ha
        rw [if_pos hzc] at ha'
        exact Prod.ext (hyc.trans hzc.symm) (hapart y.2 z.2 a ha ha')
      · rw [if_pos hyc] at ha
        rw [if_neg hzc] at ha'
        exact absurd ha' (hother z (Finset.mem_of_mem_insert_of_ne hz hzc) y.2 a ha)
    · by_cases hzc : z.1 = c
      · rw [if_neg hyc] at ha
        rw [if_pos hzc] at ha'
        exact absurd ha (hother y (Finset.mem_of_mem_insert_of_ne hy hyc) z.2 a ha')
      · rw [if_neg hyc] at ha
        rw [if_neg hzc] at ha'
        exact h.apart y z (Finset.mem_of_mem_insert_of_ne hy hyc)
          (Finset.mem_of_mem_insert_of_ne hz hzc) a ha ha'

/-! ## Calls on the memory -/

/-- The bytes that a `recv` or a `memcpy` leaves in a buffer. -/
lemma World.storeBuffer_eq {a : Addr} {x bytes : List UInt8} (ha : w.heap.buffers a = some x)
    (hlen : bytes.length ≤ x.length) :
    w.storeBuffer (some a) bytes
      = .ok (w.setBuffer a (some (bytes ++ x.drop bytes.length))) := by
  have hstore : store x 0 bytes = .ok (bytes ++ x.drop bytes.length) := by
    rw [store_of_le (by simpa using hlen)]
    simp
  simp only [World.storeBuffer, deref_some ha, ok_bind, hstore]
  rfl

lemma World.loadBuffer_eq {a : Addr} {x : List UInt8} {n : ℕ} (ha : w.heap.buffers a = some x)
    (hlen : x.length = n) : w.loadBuffer (some a) n = .ok x := by
  subst hlen
  simp [World.loadBuffer, deref_some ha, slice]

lemma World.free_eq {a : Addr} {x : List UInt8} (ha : w.heap.buffers a = some x) :
    w.free (some a) = .ok (w.setBuffer a none) := by
  simp only [World.free, deref_some ha, ok_bind]
  rfl

/-- The buffers of a connection that is no longer open are freed. -/
lemma Custody.free (h : Custody w conns bs addr buf) {p : Option Addr}
    (hlive : ∀ a, p = some a → ∃ x, w.heap.buffers a = some x)
    (hnot : ∀ x : ℤ × Side, x.1 ∈ conns → ∀ a, p = some a → addr x ≠ some a) :
    ∃ w', w.free p = .ok w' ∧ Custody w' conns bs addr buf ∧
      ∀ b, p ≠ some b → w'.heap.buffers b = w.heap.buffers b := by
  cases p with
  | none => exact ⟨w, rfl, h, fun _ _ => rfl⟩
  | some a =>
    obtain ⟨x, hx⟩ := hlive a rfl
    refine ⟨_, World.free_eq hx, h.setOther (h.represents.lt_of_buffer hx)
      (fun y hy => hnot y hy a rfl) none, fun b hb => ?_⟩
    exact Function.update_of_ne (fun heq => hb (congrArg some heq.symm)) _ _

/-! ## Handling an event

The item has been looked up, with the world `w₁` left by that.  The worlds that the handlers
lead to are the same for all budgets that suffice for the lookup. -/

section Handle

variable {s : State} {w₁ : World} {fd : ℤ} {p : ItemPtr}

/-- A call of `calloc` gives a new buffer, or none. -/
lemma Custody.calloc (h : Custody w conns bs addr buf) (n : ℕ) :
    ∃ q w', w.calloc ok n = (q, w') ∧ Custody w' conns bs addr buf ∧ w.calls < w'.calls ∧
      (ok w.calls = true → q = some w.calls) ∧
      (∀ a, q = some a → a = w.calls ∧ w'.heap.buffers a = some (List.replicate n 0)) ∧
      ∀ a, a < w.calls → w'.heap.buffers a = w.heap.buffers a := by
  cases hok : ok w.calls with
  | false =>
    exact ⟨none, _, World.calloc_of_fail hok n, h.skip (Nat.le_succ _), Nat.lt_succ_self _,
      fun h' => absurd h' Bool.false_ne_true, fun a ha => absurd ha (Option.some_ne_none a).symm,
      fun _ _ => rfl⟩
  | true =>
    refine ⟨_, _, World.calloc_of_ok hok n, h.withBuffer n, Nat.lt_succ_self _, fun _ => rfl,
      fun a ha => ?_, fun a ha => Function.update_of_ne ha.ne _ _⟩
    obtain rfl := Option.some.inj ha
    exact ⟨rfl, Function.update_self _ _ _⟩

/-- A new connection gets an item, and the buffers that can be allocated, zeroed. -/
lemma Custody.handleAccept (h : Custody w₁ s.conns bs addr buf) (hpos : 0 < fd)
    (hc : fd ∉ s.conns) (hp : ItemAt bs fd p) : ∃ (w' : World) (new : Side → Option Addr),
      (∀ fuel, lookupItem ok fuel s.world fd = .ok (p, w₁) →
        handleAccept ok fuel s fd = .ok { s with
          world := w'
          conns := Insert.insert fd s.conns
          interest := Function.update s.interest fd (some .epollin)
          log := Function.update s.log fd [] }) ∧
      ((∀ n, ok n = true) → ∀ d, new d ≠ none) ∧
      Custody w' (Insert.insert fd s.conns) bs (fun y => if y.1 = fd then new y.2 else addr y)
        (fun y => if y.1 = fd then List.replicate bufferLength 0 else buf y) := by
  obtain ⟨r, w₂, hr, h₂, hlt, hrok, hrnew, hrold⟩ := @Custody.calloc ok _ _ _ _ _ h bufferLength
  obtain ⟨q, w₃, hq, h₃, hlt', hqok, hqnew, hqold⟩ := @Custody.calloc ok _ _ _ _ _ h₂ bufferLength
  obtain ⟨w', hwrite, h', hread, hbuf, -⟩ := h₃.writeItem hpos hc hp ⟨fd, r, 0, q, 0⟩
  obtain ⟨new, rfl, rfl⟩ : ∃ new : Side → Option Addr, new .rbuf = r ∧ new .wbuf = q :=
    ⟨fun d => if d = .rbuf then r else q, rfl, rfl⟩
  -- the read buffer is older than the write buffer, and both are newer than all others
  have hrlt : ∀ a, new .rbuf = some a → a = w₁.calls ∧ a < w₂.calls :=
    fun a ha => ⟨(hrnew a ha).1, (hrnew a ha).1.trans_lt hlt⟩
  refine ⟨w', new, fun fuel hfuel => ?_, fun hok d => ?_, h'.insert hpos hc hp hread ?_ ?_ ?_⟩
  · simp only [C1000k.handleAccept, hfuel, ok_bind, hr, hq, hwrite]
    rfl
  · cases d with
    | rbuf =>
      rw [hrok (hok _)]
      exact Option.some_ne_none _
    | wbuf =>
      rw [hqok (hok _)]
      exact Option.some_ne_none _
  · intro d a ha
    rw [hbuf]
    cases d with
    | rbuf => rw [hqold a (hrlt a ha).2, (hrnew a ha).2]
    | wbuf => exact (hqnew a ha).2
  · intro d d' a ha ha'
    cases d with
    | rbuf =>
      cases d' with
      | rbuf => rfl
      | wbuf => exact absurd (hqnew a ha').1 (hrlt a ha).2.ne
    | wbuf =>
      cases d' with
      | rbuf => exact absurd (hqnew a ha).1 (hrlt a ha').2.ne
      | wbuf => rfl
  · intro y hy d a ha hya
    have hold := h.addr_lt hy hya
    cases d with
    | rbuf => exact hold.ne (hrnew a ha).1
    | wbuf => exact (hold.trans hlt).ne (hqnew a ha).1

/-- What was received is copied. -/
lemma Custody.handleRead_data (h : Custody w₁ s.conns bs addr buf) (hfd : fd ∈ s.conns)
    (hp : ItemAt bs fd p) {a b : Addr} (ha : addr (fd, .rbuf) = some a)
    (hb : addr (fd, .wbuf) = some b) (hr : (buf (fd, .rbuf)).length = bufferLength)
    (hw : (buf (fd, .wbuf)).length = bufferLength) {bytes : List UInt8}
    (hlen : bytes.length ≤ bufferLength) : ∃ w',
      (∀ fuel, lookupItem ok fuel s.world fd = .ok (p, w₁) →
        handleRead ok fuel s fd (.data bytes) = .ok { s with
          world := w'
          interest := epollMod s.interest fd .epollout
          log := Function.update s.log fd (s.log fd ++ [.recv bytes]) }) ∧
      Custody w' s.conns bs addr fun y =>
        if y.1 = fd then bytes ++ (buf (fd, .rbuf)).drop bytes.length else buf y := by
  have hx := h.live (fd, .rbuf) hfd a ha
  have hy := h.live (fd, .wbuf) hfd b hb
  have hx' : (bytes ++ (buf (fd, .rbuf)).drop bytes.length).length = bufferLength := by
    rw [List.length_append, List.length_drop]
    omega
  generalize hm : bytes ++ (buf (fd, .rbuf)).drop bytes.length = m at hx' ⊢
  -- after `recv`
  have h₂ := h.setBuffer (x := (fd, .rbuf)) hfd ha m
  have hself := h₂.live (fd, .rbuf) hfd a ha
  have hother := h₂.live (fd, .wbuf) hfd b hb
  rw [Function.update_self] at hself
  rw [Function.update_of_ne (by simp)] at hother
  -- after `memcpy`
  have hcopy : m.length = (buf (fd, .wbuf)).length := hx'.trans hw.symm
  have hall : m ++ (buf (fd, .wbuf)).drop m.length = m := by
    rw [hcopy, List.drop_length, List.append_nil]
  have h₃ := h₂.setBuffer (x := (fd, .wbuf)) hfd hb m
  have hbuf : Function.update (Function.update buf (fd, .rbuf) m) (fd, .wbuf) m
      = fun y => if y.1 = fd then m else buf y := by
    funext ⟨fd', d⟩
    by_cases heq : fd' = fd
    · subst heq
      cases d <;> simp
    · simp [heq]
  rw [hbuf] at h₃
  refine ⟨_, fun fuel hfuel => ?_, h₃⟩
  have hstore := World.storeBuffer_eq hx (hlen.trans hr.ge)
  rw [hm] at hstore
  have hstore' := World.storeBuffer_eq hother hcopy.le
  rw [hall] at hstore'
  simp only [C1000k.handleRead, hfuel, ok_bind, h.readItem hfd hp, ha, hb, hstore,
    World.loadBuffer_eq hself hx', hstore']
  rfl

/-- The peer has closed: the buffers are freed. -/
lemma Custody.handleRead_eof (h : Custody w₁ s.conns bs addr buf) (hfd : fd ∈ s.conns)
    (hp : ItemAt bs fd p) : ∃ w',
      (∀ fuel, lookupItem ok fuel s.world fd = .ok (p, w₁) →
        handleRead ok fuel s fd .eof = .ok { s with
          world := w'
          conns := s.conns.erase fd
          interest := Function.update s.interest fd none }) ∧
      Custody w' (s.conns.erase fd) bs addr buf := by
  -- the other connections have other buffers
  have hnot : ∀ d, ∀ x : ℤ × Side, x.1 ∈ s.conns.erase fd → ∀ a, addr (fd, d) = some a →
      addr x ≠ some a := by
    intro d x hx a ha hxa
    obtain ⟨hne, hmem⟩ := Finset.mem_erase.1 hx
    exact hne (congrArg Prod.fst (h.apart x (fd, d) hmem hfd a hxa ha))
  obtain ⟨w₂, hfree, h₂, hkeep⟩ := (h.erase fd).free
    (fun a ha => ⟨_, h.live (fd, .rbuf) hfd a ha⟩) (hnot .rbuf)
  have hlive : ∀ b, addr (fd, .wbuf) = some b → ∃ x, w₂.heap.buffers b = some x := by
    intro b hb
    have hne : addr (fd, .rbuf) ≠ some b := by
      intro ha
      cases congrArg Prod.snd (h.apart (fd, .rbuf) (fd, .wbuf) hfd hfd b ha hb)
    exact ⟨_, (hkeep b hne).trans (h.live (fd, .wbuf) hfd b hb)⟩
  obtain ⟨w₃, hfree', h₃, -⟩ := h₂.free hlive (hnot .wbuf)
  obtain ⟨w', hwrite, h', -⟩ := h₃.writeItem (h.pos fd hfd) (Finset.notMem_erase fd s.conns) hp
    ⟨0, addr (fd, .rbuf), 0, addr (fd, .wbuf), 0⟩
  refine ⟨w', fun fuel hfuel => ?_, h'⟩
  simp only [C1000k.handleRead, hfuel, ok_bind, h.readItem hfd hp, hfree, hfree', hwrite]
  rfl

/-- A failed `recv` changes nothing. -/
lemma Custody.handleRead_error (h : Custody w₁ s.conns bs addr buf) (hfd : fd ∈ s.conns)
    (hp : ItemAt bs fd p) {fuel : ℕ} (hfuel : lookupItem ok fuel s.world fd = .ok (p, w₁)) :
    handleRead ok fuel s fd .error = .ok { s with world := w₁ } := by
  simp only [C1000k.handleRead, hfuel, ok_bind, h.readItem hfd hp]
  rfl

/-- The contents of the write buffer are sent. -/
lemma Custody.handleWrite (h : Custody w₁ s.conns bs addr buf) (hfd : fd ∈ s.conns)
    (hp : ItemAt bs fd p) {b : Addr} (hb : addr (fd, .wbuf) = some b)
    (hw : (buf (fd, .wbuf)).length = bufferLength) (sent : ℤ) {fuel : ℕ}
    (hfuel : lookupItem ok fuel s.world fd = .ok (p, w₁)) :
    handleWrite ok fuel s fd sent = .ok { s with
      world := w₁
      interest := epollMod s.interest fd .epollin
      log := Function.update s.log fd
        (s.log fd ++ [.send (buf (fd, .wbuf)) ((buf (fd, .wbuf)).take sent.toNat)]) } := by
  simp only [C1000k.handleWrite, hfuel, ok_bind, h.readItem hfd hp, hb,
    World.loadBuffer_eq (h.live (fd, .wbuf) hfd b hb) hw]
  rfl

end Handle

end CppExample.C1000k
