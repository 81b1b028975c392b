/-
# The connections of the c1000k server

What holds in every run of the server.  `Outcome` says what handling an event can do; that
the handler of a due event does one of these things, and does not fault, comes from
`Memory.lean`, and what it changes in what is registered is a `Change`.  The invariant
`State.Inv` has both the memory and what is registered, and every outcome keeps it.
-/
import CppExample.C1000k.Memory
import CppExample.C1000k.Sessions

namespace CppExample.C1000k
open Lib

variable {ok : ℕ → Bool} {sockfds : Finset ℤ} {s t : State} {e : Event}

/-! ## What handling an event can do -/

/-- The item and the buffers of every open connection are as they should be. -/
def Intact (w : World) (conns : Finset ℤ) : Prop := ∃ bs rbuf wbuf, Memory w conns bs rbuf wbuf

/-- What handling the event can do. -/
inductive Outcome (sockfds : Finset ℤ) (s : State) (e : Event) : State → Prop
  /-- `accept` has failed. -/
  | abandon (hl : e.fd ∈ sockfds) : Outcome sockfds s e { s with batch := [] }
  /-- A new connection. -/
  | accept {c : ℤ} {w' : World} (hl : e.fd ∈ sockfds) (hpos : 0 < c) (hc : c ∉ sockfds)
      (hnew : c ∉ s.conns) (hw : Intact w' (insert c s.conns)) :
      Outcome sockfds s e { s with
        world := w'
        conns := insert c s.conns
        interest := Function.update s.interest c (some .epollin)
        log := Function.update s.log c [] }
  /-- Bytes were received. -/
  | recv {w' : World} (bytes : List UInt8) (hc : e.fd ∈ s.conns)
      (hi : s.interest e.fd = some .epollin) (hw : Intact w' s.conns) :
      Outcome sockfds s e { s with
        world := w'
        interest := epollMod s.interest e.fd .epollout
        log := Function.update s.log e.fd (s.log e.fd ++ [.recv bytes]) }
  /-- The connection was closed. -/
  | close {w' : World} (hc : e.fd ∈ s.conns) (hw : Intact w' (s.conns.erase e.fd)) :
      Outcome sockfds s e { s with
        world := w'
        conns := s.conns.erase e.fd
        interest := Function.update s.interest e.fd none }
  /-- `recv` has failed. -/
  | error {w' : World} (hw : Intact w' s.conns) : Outcome sockfds s e { s with world := w' }
  /-- Bytes were sent. -/
  | send {w' : World} (given transferred : List UInt8) (hc : e.fd ∈ s.conns)
      (hi : s.interest e.fd = some .epollout) (hw : Intact w' s.conns) :
      Outcome sockfds s e { s with
        world := w'
        interest := epollMod s.interest e.fd .epollin
        log := Function.update s.log e.fd (s.log e.fd ++ [.send given transferred]) }
  /-- Neither readable nor writable. -/
  | ignore : Outcome sockfds s e s

/-- A readable connection. -/
lemma exists_outcome_read (hoften : OftenOk ok) (hw : Intact s.world s.conns)
    (hc : e.fd ∈ s.conns) (hi : s.interest e.fd = some .epollin) {r : RecvResult}
    (hr : ∀ bytes, r = .data bytes → bytes ≠ [] ∧ bytes.length ≤ bufferLength) :
    ∃ t, (∃ n, ∀ fuel, n ≤ fuel → handleRead ok fuel s e.fd r = .ok t) ∧
      Outcome sockfds s e t := by
  obtain ⟨bs, rbuf, wbuf, hm⟩ := hw
  cases r with
  | data bytes =>
    obtain ⟨w', bs', hn, hm'⟩ := hm.handleRead_data hoften hc (hr bytes rfl).2
    exact ⟨_, hn, .recv bytes hc hi ⟨bs', rbuf, wbuf, hm'⟩⟩
  | eof =>
    obtain ⟨w', bs', hn, hm'⟩ := hm.handleRead_eof hoften hc
    exact ⟨_, hn, .close hc ⟨bs', rbuf, wbuf, hm'⟩⟩
  | error =>
    obtain ⟨w', bs', hn, hm'⟩ := hm.handleRead_error hoften hc
    exact ⟨_, hn, .error ⟨bs', rbuf, wbuf, hm'⟩⟩

/-- **A due event is handled without a fault.** -/
theorem exists_outcome (hok : ∀ n, ok n = true) (hw : Intact s.world s.conns)
    (hdue : Due sockfds s e) {r : Reply} (hr : r.Ok sockfds s) :
    ∃ t, Handles ok sockfds s e r t ∧ Outcome sockfds s e t := by
  have hoften := OftenOk.of_forall hok
  by_cases hl : e.fd ∈ sockfds
  · cases ha : r.accept with
    | none => exact ⟨_, ⟨0, fun fuel _ => by rw [handle, if_pos hl, ha]⟩, .abandon hl⟩
    | some c =>
      obtain ⟨bs, rbuf, wbuf, hm⟩ := hw
      obtain ⟨hpos, hc, hnew⟩ := hr.accept c ha
      obtain ⟨w', bs', rbuf', wbuf', ⟨n, hn⟩, hm'⟩ := hm.handleAccept hok hpos hnew
      refine ⟨_, ⟨n, fun fuel hfuel => ?_⟩, .accept hl hpos hc hnew ⟨bs', rbuf', wbuf', hm'⟩⟩
      rw [handle, if_pos hl, ha]
      exact hn fuel hfuel
  · obtain ⟨hc, hin, hout⟩ := hdue.resolve_left hl
    cases hein : e.epollin with
    | true =>
      obtain ⟨t, ⟨n, hn⟩, ht⟩ := exists_outcome_read hoften hw hc (hin hein) hr.recv
      refine ⟨t, ⟨n, fun fuel hfuel => ?_⟩, ht⟩
      rw [handle, if_neg hl, if_pos hein]
      exact hn fuel hfuel
    | false =>
      cases heout : e.epollout with
      | true =>
        obtain ⟨bs, rbuf, wbuf, hm⟩ := hw
        obtain ⟨w', bs', given, ⟨n, hn⟩, hm'⟩ := hm.handleWrite hoften hc r.send
        refine ⟨_, ⟨n, fun fuel hfuel => ?_⟩, .send given (given.take r.send.toNat) hc (hout heout)
          ⟨bs', rbuf, wbuf, hm'⟩⟩
        rw [handle, if_neg hl, hein, if_neg Bool.false_ne_true, if_pos heout]
        exact hn fuel hfuel
      | false =>
        refine ⟨s, ⟨0, fun fuel _ => ?_⟩, .ignore⟩
        rw [handle, if_neg hl, hein, heout, if_neg Bool.false_ne_true, if_neg Bool.false_ne_true]

lemma Handles.unique {r : Reply} {t' : State} (h : Handles ok sockfds s e r t)
    (h' : Handles ok sockfds s e r t') : t = t' := eq_of_enough_fuel h h'

lemma Outcome.change (h : Outcome sockfds s e t) : Change sockfds s e t := by
  cases h with
  | abandon hl => exact @Change.abandon sockfds s e s.world hl
  | accept hl hpos hc hnew hw => exact .accept hl hpos hc hnew
  | recv bytes hc hi hw => exact .recv bytes hc hi
  | close hc hw => exact .close hc
  | error hw => exact .none
  | send given transferred hc hi hw => exact .send given transferred hc hi
  | ignore => exact @Change.none sockfds s e s.world

lemma Outcome.intact (h : Outcome sockfds s e t) (hs : Intact s.world s.conns) :
    Intact t.world t.conns := by
  cases h with
  | abandon hl => exact hs
  | accept hl hpos hc hnew hw => exact hw
  | recv bytes hc hi hw => exact hw
  | close hc hw => exact hw
  | error hw => exact hw
  | send given transferred hc hi hw => exact hw
  | ignore => exact hs

/-! ## Runs -/

/-- The invariant of the server. -/
structure State.Inv (sockfds : Finset ℤ) (s : State) : Prop where
  registered : Registered sockfds s
  intact : Intact s.world s.conns
  due : ∀ e ∈ s.batch, Due sockfds s e
  /-- A descriptor has at most one event in a batch. -/
  nodup : (s.batch.map Event.fd).Nodup

/-- The next event is handled without a fault, and leads to one of the outcomes. -/
lemma State.Inv.handles (hok : ∀ n, ok n = true) (hs : s.Inv sockfds) {rest : List Event}
    (hb : s.batch = e :: rest) {r : Reply} (hr : r.Ok sockfds s) :
    ∃ t, Handles ok sockfds { s with batch := rest } e r t ∧
      Outcome sockfds { s with batch := rest } e t := by
  have hdue := hs.due e (hb ▸ List.mem_cons_self)
  exact @exists_outcome ok sockfds { s with batch := rest } e hok hs.intact hdue r
    ⟨hr.accept, hr.recv⟩

lemma State.Inv.listed (hs : s.Inv sockfds) : s.Listed sockfds := ⟨hs.registered, hs.due, hs.nodup⟩

lemma State.Listed.inv (hs : s.Listed sockfds) (hw : Intact s.world s.conns) : s.Inv sockfds :=
  ⟨hs.registered, hw, hs.due, hs.nodup⟩

lemma Step.inv (hok : ∀ n, ok n = true) (hst : Step ok sockfds s t) (hs : s.Inv sockfds) :
    t.Inv sockfds := by
  cases hst with
  | wait events hb hev => exact (hs.listed.wait hev).inv hs.intact
  | handle r hb hr ht =>
    obtain ⟨t', ht', hout⟩ := hs.handles hok hb hr
    rw [ht.unique ht']
    exact (hs.listed.change hb hout.change).inv (hout.intact hs.intact)

lemma inv_start : (State.start sockfds).Inv sockfds := by
  refine listed_start.inv ⟨[], fun _ => 0, fun _ => 0, represents_zero, ?_, ?_, ?_⟩
  · exact fun fd hfd => absurd hfd (Finset.notMem_empty fd)
  · exact fun fd hfd => absurd hfd (Finset.notMem_empty fd)
  · exact fun fd hfd => absurd hfd (Finset.notMem_empty fd)

lemma Reach.inv (hok : ∀ n, ok n = true) (h : Reach ok sockfds s) : s.Inv sockfds := by
  refine Reachable.invariant (I := State.Inv sockfds) ?_ ?_ h
  · rintro s rfl
    exact inv_start
  · exact fun s t _ hs hst => hst.inv hok hs

/-- What the server owes its connections. -/
structure ConnectionsOk (ok : ℕ → Bool) (sockfds : Finset ℤ) (s : State) : Prop where
  /-- The listening descriptors that could be created are registered, and the open
  connections, and nothing else. -/
  interest : ∀ fd, (s.interest fd).isSome ↔ (fd ∈ sockfds ∧ 0 ≤ fd) ∨ fd ∈ s.conns
  /-- A connection is registered for one of reading and writing; for writing exactly when
  something was received and not yet sent back. -/
  phase : ∀ fd ∈ s.conns,
    (s.interest fd = some .epollin ∨ s.interest fd = some .epollout) ∧
    (s.interest fd = some .epollout ↔ Unanswered (s.log fd))
  /-- On a connection `recv` and `send` alternate. -/
  alternates : ∀ fd ∈ s.conns, Alternates (s.log fd)
  /-- The item of a connection has its descriptor and two live buffers, which no other
  connection has. -/
  buffers : ∃ bs rbuf wbuf, Represents s.world bs ∧ Apart s.conns rbuf wbuf ∧
    ∀ fd ∈ s.conns, Owns s.world bs fd (rbuf fd) (wbuf fd)
  /-- The events that are still to be handled are for listening descriptors and for open
  connections. -/
  events : ∀ e ∈ s.batch, e.fd ∉ sockfds → e.fd ∈ s.conns
  /-- Whatever the kernel answers, the next event is handled without a fault. -/
  handles : ∀ e rest, s.batch = e :: rest → ∀ r : Reply, r.Ok sockfds s →
    ∃ t, Handles ok sockfds { s with batch := rest } e r t

/-- **The connections are in order** in every state of every run. -/
theorem connections_ok (hok : ∀ n, ok n = true) (h : Reach ok sockfds s) :
    ConnectionsOk ok sockfds s := by
  have hs := h.inv hok
  obtain ⟨bs, rbuf, wbuf, hm⟩ := hs.intact
  refine ⟨hs.registered.interest, fun fd hfd => ⟨?_, ?_⟩, hs.registered.alternates,
    ⟨bs, rbuf, wbuf, hm.represents, hm.apart, hm.owns⟩, fun e he hl => ?_, fun e rest hb r hr => ?_⟩
  · obtain ⟨i, hi⟩ := Option.isSome_iff_exists.1 ((hs.registered.interest fd).2 (Or.inr hfd))
    cases i with
    | epollin => exact Or.inl hi
    | epollout => exact Or.inr hi
  · rw [(hs.registered.alternates fd hfd).unanswered_iff]
    exact hs.registered.phase fd hfd
  · exact ((hs.due e he).resolve_left hl).1
  · obtain ⟨t, ht, -⟩ := hs.handles hok hb hr
    exact ⟨t, ht⟩

/-- When allocations succeed, a run can go on with any event that epoll may report, and any
answer of the kernel. -/
lemma exists_round (hok : ∀ n, ok n = true) (hs : s.Inv sockfds) (hf : s.Faithful)
    (hb : s.batch = []) {e : Event} (hev : Reportable s [e]) {r : Reply} (hr : r.Ok sockfds s) :
    ∃ w, Trace (Takes ok sockfds) s [.wait [e], .handle r] (s.after sockfds e r w) ∧
      (s.after sockfds e r w).Inv sockfds ∧ (s.after sockfds e r w).Faithful := by
  have hwait : Takes ok sockfds (.wait [e]) s { s with batch := [e] } := .wait hb hev
  have hs' := hwait.step.inv hok hs
  have hsound := hwait.sound ⟨hs.listed, hf⟩
  have hr' : r.Ok sockfds { s with batch := [e] } := ⟨hr.accept, hr.recv⟩
  obtain ⟨t, ht, -⟩ := hs'.handles hok rfl hr'
  have hhandle : Takes ok sockfds (.handle r) { s with batch := [e] } t := .handle rfl hr' ht
  obtain ⟨heq, hsound'⟩ := hsound.handle rfl hr' ht
  have hback : ({ s with batch := [] } : State) = s := by rw [← hb]
  have heq' : t = s.after sockfds e r t.world := by
    rw [hback] at heq
    exact heq
  have hinv := hhandle.step.inv hok hs'
  have htrace : Trace (Takes ok sockfds) s [.wait [e], .handle r] t :=
    .cons hwait (.cons hhandle (.nil t))
  refine ⟨t.world, ?_, ?_, ?_⟩
  · rw [← heq']
    exact htrace
  · rw [← heq']
    exact hinv
  · rw [← heq']
    exact hsound'.faithful

lemma Reportable.readable {fd : ℤ} (hi : s.interest fd = some .epollin) :
    Reportable s [⟨fd, true, false⟩] := by
  refine ⟨?_, ?_, ?_, ?_, ?_⟩ <;> simp [hi]

lemma Reportable.writable {fd : ℤ} (hi : s.interest fd = some .epollout) :
    Reportable s [⟨fd, false, true⟩] := by
  refine ⟨?_, ?_, ?_, ?_, ?_⟩ <;> simp [hi]

lemma Reach.trace {l : List Input} (h : Reach ok sockfds s) (ht : Trace (Takes ok sockfds) s l t) :
    Reach ok sockfds t :=
  Trace.invariant (I := Reach ok sockfds) (fun _ _ _ hs hst => Reachable.tail hs hst.step) ht h

/-- The server listens on 3 and has accepted the connection 5; a byte was received there, and
not yet sent back. -/
theorem connections_ok_oneClient : ∃ s : State, Reach (fun _ => true) {3} s ∧ s.batch = [] ∧
    s.conns = {5} ∧ s.log 5 = [.recv [104]] ∧ s.interest 5 = some .epollout ∧
    ConnectionsOk (fun _ => true) {3} s := by
  have hok : ∀ n : ℕ, (fun _ => true : ℕ → Bool) n = true := fun _ => rfl
  have h₀ : Reach (fun _ => true) {3} (State.start {3}) := Reachable.of_init rfl
  obtain ⟨w₁, h₁, hinv, hf⟩ := @exists_round _ {3} _ hok inv_start faithful_start rfl _
    (.readable (show (State.start {3}).interest 3 = _ from rfl)) ⟨some 5, .error, 0⟩
    ⟨by simp [State.start], by simp⟩
  obtain ⟨w₂, h₂, -⟩ := exists_round hok hinv hf rfl
    (.readable (show (State.interest _) 5 = _ from rfl))
    (show Reply.Ok {3} _ ⟨none, .data [104], 0⟩ from ⟨by simp, by simp [bufferLength]⟩)
  have hreach := (h₀.trace h₁).trace h₂
  exact ⟨_, hreach, rfl, rfl, rfl, rfl, connections_ok hok hreach⟩

end CppExample.C1000k
