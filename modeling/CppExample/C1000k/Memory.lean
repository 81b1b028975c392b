/-
# The memory of the c1000k server

`Memory` is about the reactor and the heap when allocations succeed: the item of an open
connection names the connection and its two buffers, which are live and which no other
connection has.  It is `Custody` without null pointers, and with nothing said about the
contents of a buffer but its size.

Each handler of the server has one lemma, from `Memory` to `Memory`: it does not fault, and
the state it leads to is the one that the source says, up to what is in the memory.
-/
import CppExample.C1000k.Custody

namespace CppExample.C1000k
open Lib

variable {ok : ℕ → Bool} {sockfds : Finset ℤ} {w w' : World} {bs bs' : List (Addr × Addr)}
  {conns : Finset ℤ} {rbuf wbuf : ℤ → Addr}

/-! ## The memory of the connections -/

/-- The item of the connection names it and its buffers, which are live. -/
structure Owns (w : World) (bs : List (Addr × Addr)) (fd : ℤ) (a b : Addr) : Prop where
  item : ∃ p, ItemAt bs fd p ∧ w.readItem p = .ok ⟨fd, some a, 0, some b, 0⟩
  rbuf : ∃ x, w.heap.buffers a = some x ∧ x.length = bufferLength
  wbuf : ∃ y, w.heap.buffers b = some y ∧ y.length = bufferLength

/-- No two connections share a buffer, and none uses one for both purposes. -/
def Apart (conns : Finset ℤ) (rbuf wbuf : ℤ → Addr) : Prop :=
  ∀ fd ∈ conns, ∀ fd' ∈ conns,
    rbuf fd ≠ wbuf fd' ∧ (fd ≠ fd' → rbuf fd ≠ rbuf fd' ∧ wbuf fd ≠ wbuf fd')

/-- The invariant of the memory. -/
structure Memory (w : World) (conns : Finset ℤ) (bs : List (Addr × Addr))
    (rbuf wbuf : ℤ → Addr) : Prop where
  represents : Represents w bs
  pos : ∀ fd ∈ conns, 0 < fd
  owns : ∀ fd ∈ conns, Owns w bs fd (rbuf fd) (wbuf fd)
  apart : Apart conns rbuf wbuf

/-- The address of one of the two buffers of a connection. -/
def bufferAt (rbuf wbuf : ℤ → Addr) (x : ℤ × Side) : Addr :=
  if x.2 = .rbuf then rbuf x.1 else wbuf x.1

lemma Memory.custody (h : Memory w conns bs rbuf wbuf) : ∃ buf,
    Custody w conns bs (fun x => some (bufferAt rbuf wbuf x)) buf ∧
      ∀ x : ℤ × Side, x.1 ∈ conns → (buf x).length = bufferLength := by
  have hlive : ∀ x : ℤ × Side, x.1 ∈ conns → ∃ y,
      w.heap.buffers (bufferAt rbuf wbuf x) = some y ∧ y.length = bufferLength := by
    rintro ⟨fd, d⟩ hx
    cases d with
    | rbuf => exact (h.owns fd hx).rbuf
    | wbuf => exact (h.owns fd hx).wbuf
  refine ⟨fun x => (w.heap.buffers (bufferAt rbuf wbuf x)).getD [],
    ⟨h.represents, h.pos, fun fd hfd => (h.owns fd hfd).item, fun x hx a ha => ?_,
      fun x y hx hy a ha ha' => ?_⟩, fun x hx => ?_⟩
  · obtain ⟨y, hy, -⟩ := hlive x hx
    rw [← Option.some.inj ha, hy]
    rfl
  · obtain ⟨fd, d⟩ := x
    obtain ⟨fd', d'⟩ := y
    have heq : bufferAt rbuf wbuf (fd, d) = bufferAt rbuf wbuf (fd', d') :=
      Option.some.inj (ha.trans ha'.symm)
    obtain ⟨h1, h2⟩ := h.apart fd hx fd' hy
    have h3 := (h.apart fd' hy fd hx).1
    cases d with
    | rbuf =>
      cases d' with
      | rbuf => rw [not_imp_comm.1 (fun hne => (h2 hne).1) (not_not.2 heq)]
      | wbuf => exact absurd heq h1
    | wbuf =>
      cases d' with
      | rbuf => exact absurd heq.symm h3
      | wbuf => rw [not_imp_comm.1 (fun hne => (h2 hne).2) (not_not.2 heq)]
  · obtain ⟨y, hy, hlen⟩ := hlive x hx
    simpa [hy] using hlen

lemma Custody.memory {buf : ℤ × Side → List UInt8} {addr : ℤ × Side → Option Addr}
    (h : Custody w conns bs addr buf)
    (haddr : ∀ x : ℤ × Side, x.1 ∈ conns → addr x = some (bufferAt rbuf wbuf x))
    (hlen : ∀ x : ℤ × Side, x.1 ∈ conns → (buf x).length = bufferLength) :
    Memory w conns bs rbuf wbuf := by
  have hr : ∀ fd ∈ conns, addr (fd, .rbuf) = some (rbuf fd) := fun fd hfd => haddr (fd, .rbuf) hfd
  have hw : ∀ fd ∈ conns, addr (fd, .wbuf) = some (wbuf fd) := fun fd hfd => haddr (fd, .wbuf) hfd
  refine ⟨h.represents, h.pos, fun fd hfd => ⟨?_, ?_, ?_⟩, fun fd hfd fd' hfd' => ⟨?_, ?_⟩⟩
  · obtain ⟨p, hp, hread⟩ := h.item fd hfd
    rw [hr fd hfd, hw fd hfd] at hread
    exact ⟨p, hp, hread⟩
  · exact ⟨_, h.live (fd, .rbuf) hfd _ (hr fd hfd), hlen (fd, .rbuf) hfd⟩
  · exact ⟨_, h.live (fd, .wbuf) hfd _ (hw fd hfd), hlen (fd, .wbuf) hfd⟩
  · intro heq
    cases h.apart (fd, .rbuf) (fd', .wbuf) hfd hfd' _ (hr fd hfd) (heq ▸ hw fd' hfd')
  · refine fun hne => ⟨fun heq => hne ?_, fun heq => hne ?_⟩
    · cases h.apart (fd, .rbuf) (fd', .rbuf) hfd hfd' _ (hr fd hfd) (heq ▸ hr fd' hfd')
      rfl
    · cases h.apart (fd, .wbuf) (fd', .wbuf) hfd hfd' _ (hw fd hfd) (heq ▸ hw fd' hfd')
      rfl

/-- The lookup of an item, also when it makes the table grow. -/
lemma Memory.lookupItem (hoften : OftenOk ok) (h : Memory w conns bs rbuf wbuf) {fd : ℤ}
    (hfd : 0 < fd) : ∃ p w' bs',
      (∃ n, ∀ fuel, n ≤ fuel → lookupItem ok fuel w fd = .ok (p, w')) ∧
      Memory w' conns bs' rbuf wbuf ∧ ItemAt bs' fd p := by
  obtain ⟨p, w', bs', ⟨n, hn⟩, hext, hrep, hpre, -, hitem⟩ :=
    h.represents.lookup_spec hoften hfd
  obtain ⟨buf, hc, hlen⟩ := h.custody
  refine ⟨p, w', bs', ⟨n, fun fuel hfuel => ?_⟩, (hc.grow hext hrep hpre).memory (fun _ _ => rfl)
    hlen, hitem⟩
  rw [C1000k.lookupItem, hn fuel hfuel]
  rfl

/-! ## Handling an event -/

section Handle

variable {s : State}

/-- A new connection gets an item and two buffers. -/
lemma Memory.handleAccept (hok : ∀ n, ok n = true) (h : Memory s.world s.conns bs rbuf wbuf)
    {c : ℤ} (hpos : 0 < c) (hc : c ∉ s.conns) : ∃ w' bs' rbuf' wbuf',
      (∃ n, ∀ fuel, n ≤ fuel → handleAccept ok fuel s c = .ok { s with
        world := w'
        conns := Insert.insert c s.conns
        interest := Function.update s.interest c (some .epollin)
        log := Function.update s.log c [] }) ∧
      Memory w' (Insert.insert c s.conns) bs' rbuf' wbuf' := by
  obtain ⟨p, w₁, bs', ⟨n, hn⟩, h₁, hp⟩ := h.lookupItem (.of_forall hok) hpos
  obtain ⟨buf, hcust, hlen⟩ := h₁.custody
  obtain ⟨w', new, hhandle, hnew, h'⟩ := @Custody.handleAccept ok _ _ _ _ _ _ _ hcust hpos hc hp
  obtain ⟨a, ha⟩ := Option.ne_none_iff_exists'.1 (hnew hok .rbuf)
  obtain ⟨b, hb⟩ := Option.ne_none_iff_exists'.1 (hnew hok .wbuf)
  refine ⟨w', bs', Function.update rbuf c a, Function.update wbuf c b,
    ⟨n, fun fuel hfuel => hhandle fuel (hn fuel hfuel)⟩, h'.memory ?_ ?_⟩
  · rintro ⟨fd, d⟩ -
    by_cases heq : fd = c
    · subst heq
      cases d <;> simp [bufferAt, ha, hb]
    · cases d <;> simp [bufferAt, heq]
  · rintro ⟨fd, d⟩ hx
    by_cases heq : fd = c
    · simp [heq]
    · simpa [heq] using hlen (fd, d) (Finset.mem_of_mem_insert_of_ne hx heq)

/-- What was received is copied, and the server waits to send it. -/
lemma Memory.handleRead_data (hoften : OftenOk ok) (h : Memory s.world s.conns bs rbuf wbuf)
    {fd : ℤ} (hfd : fd ∈ s.conns) {bytes : List UInt8} (hbytes : bytes.length ≤ bufferLength) :
    ∃ w' bs', (∃ n, ∀ fuel, n ≤ fuel → handleRead ok fuel s fd (.data bytes) = .ok { s with
        world := w'
        interest := epollMod s.interest fd .epollout
        log := Function.update s.log fd (s.log fd ++ [.recv bytes]) }) ∧
      Memory w' s.conns bs' rbuf wbuf := by
  obtain ⟨p, w₁, bs', ⟨n, hn⟩, h₁, hp⟩ := h.lookupItem hoften (h.pos fd hfd)
  obtain ⟨buf, hcust, hlen⟩ := h₁.custody
  have hr := hlen (fd, .rbuf) hfd
  obtain ⟨w', hhandle, h'⟩ :=
    hcust.handleRead_data hfd hp rfl rfl hr (hlen (fd, .wbuf) hfd) hbytes
  refine ⟨w', bs', ⟨n, fun fuel hfuel => hhandle fuel (hn fuel hfuel)⟩,
    h'.memory (fun _ _ => rfl) fun x hx => ?_⟩
  split
  · rw [List.length_append, List.length_drop]
    omega
  · exact hlen x hx

/-- The peer has closed: the buffers are freed. -/
lemma Memory.handleRead_eof (hoften : OftenOk ok) (h : Memory s.world s.conns bs rbuf wbuf)
    {fd : ℤ} (hfd : fd ∈ s.conns) :
    ∃ w' bs', (∃ n, ∀ fuel, n ≤ fuel → handleRead ok fuel s fd .eof = .ok { s with
        world := w'
        conns := s.conns.erase fd
        interest := Function.update s.interest fd none }) ∧
      Memory w' (s.conns.erase fd) bs' rbuf wbuf := by
  obtain ⟨p, w₁, bs', ⟨n, hn⟩, h₁, hp⟩ := h.lookupItem hoften (h.pos fd hfd)
  obtain ⟨buf, hcust, hlen⟩ := h₁.custody
  obtain ⟨w', hhandle, h'⟩ := @Custody.handleRead_eof ok _ _ _ _ _ _ _ hcust hfd hp
  exact ⟨w', bs', ⟨n, fun fuel hfuel => hhandle fuel (hn fuel hfuel)⟩,
    h'.memory (fun _ _ => rfl) fun x hx => hlen x (Finset.mem_of_mem_erase hx)⟩

/-- A failed `recv` changes nothing. -/
lemma Memory.handleRead_error (hoften : OftenOk ok) (h : Memory s.world s.conns bs rbuf wbuf)
    {fd : ℤ} (hfd : fd ∈ s.conns) :
    ∃ w' bs', (∃ n, ∀ fuel, n ≤ fuel → handleRead ok fuel s fd .error
        = .ok { s with world := w' }) ∧
      Memory w' s.conns bs' rbuf wbuf := by
  obtain ⟨p, w₁, bs', ⟨n, hn⟩, h₁, hp⟩ := h.lookupItem hoften (h.pos fd hfd)
  obtain ⟨buf, hcust, -⟩ := h₁.custody
  exact ⟨w₁, bs', ⟨n, fun fuel hfuel => hcust.handleRead_error hfd hp (hn fuel hfuel)⟩, h₁⟩

/-- The copy is sent, and the server waits to receive. -/
lemma Memory.handleWrite (hoften : OftenOk ok) (h : Memory s.world s.conns bs rbuf wbuf)
    {fd : ℤ} (hfd : fd ∈ s.conns) (sent : ℤ) :
    ∃ w' bs' given, (∃ n, ∀ fuel, n ≤ fuel → handleWrite ok fuel s fd sent = .ok { s with
        world := w'
        interest := epollMod s.interest fd .epollin
        log := Function.update s.log fd
          (s.log fd ++ [.send given (given.take sent.toNat)]) }) ∧
      Memory w' s.conns bs' rbuf wbuf := by
  obtain ⟨p, w₁, bs', ⟨n, hn⟩, h₁, hp⟩ := h.lookupItem hoften (h.pos fd hfd)
  obtain ⟨buf, hcust, hlen⟩ := h₁.custody
  exact ⟨w₁, bs', _, ⟨n, fun fuel hfuel =>
    hcust.handleWrite hfd hp rfl (hlen (fd, .wbuf) hfd) sent (hn fuel hfuel)⟩, h₁⟩

end Handle

end CppExample.C1000k
