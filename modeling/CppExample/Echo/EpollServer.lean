/-
# The epoll echo server

The main loop of `network/echo/d5_epoll_echo_server.cpp`.  The kernel hands out batches of
events; while the server handles an event, the kernel answers its calls of `accept` and
`read`.  The descriptors that are open connections and the interest set of the epoll
instance are part of the state.

When a client is gone, the server deregisters `connfd`, the descriptor accepted last, and
closes `sockfd`, the client's.  The interest set stays what it should be as long as every
disconnect comes when `connfd` is the client's own descriptor or no open connection:
`registered_iff_ownDescriptor`.  With two clients, `lostClient` is a state in which one of
them is never served again.
-/
import CppExample.Lib.Run
import Mathlib.Data.Finset.Insert
import Mathlib.Data.Finset.Erase

namespace CppExample.Echo.EpollServer
open Lib

/-- An entry of `events`: `data.fd`, and whether `events` has `EPOLLIN`. -/
structure Event where
  fd : ℤ
  epollin : Bool
deriving DecidableEq, Repr

/-- What `accept` returns. -/
inductive AcceptResult where
  | fd (connfd : ℤ)
  /-- -1, with `errno == EINTR`. -/
  | eintr
  /-- -1, with another error. -/
  | error
deriving DecidableEq, Repr

/-- What `read` returns. -/
inductive ReadResult where
  | data (bytes : List UInt8)
  /-- Zero or less: the connection was closed, or an error. -/
  | closed
deriving DecidableEq, Repr

/-- The answers of the kernel while one event is handled. -/
structure Reply where
  accept : AcceptResult
  read : ReadResult
deriving DecidableEq, Repr

/-- The server, with what the kernel knows of it. -/
structure State where
  /-- The accepted connections that have not been closed. -/
  conns : Finset ℤ
  /-- The interest set of `epollfd`. -/
  interest : Finset ℤ
  /-- `connfd`. -/
  connfd : ℤ
  /-- The events of the current batch that are still to be handled; none when the server is
  at `epoll_wait`. -/
  batch : List Event
  /-- The calls of `write` so far. -/
  written : List (ℤ × List UInt8)
deriving DecidableEq

variable (listenfd : ℤ)

/-- The server before the loop, with `connfd` not initialised. -/
def State.start (garbage : ℤ) : State := ⟨∅, {listenfd}, garbage, [], []⟩

/-- The body of the inner loop.  There is no next state when `err_sys` ends the process. -/
def handle (s : State) (e : Event) (r : Reply) : Option State :=
  if listenfd = e.fd then
    match r.accept with
    | .eintr => some { s with connfd := -1 }
    | .error => none
    | .fd c => some { s with
        connfd := c, conns := insert c s.conns, interest := insert c s.interest }
  else if e.epollin then
    if e.fd < 0 then some s
    else
      match r.read with
      | .closed => some { s with
          -- `epoll_ctl (epollfd, EPOLL_CTL_DEL, connfd, nullptr)`, then `close (sockfd)`
          interest := (s.interest.erase s.connfd).erase e.fd
          conns := s.conns.erase e.fd }
      | .data bytes => some { s with written := s.written ++ [(e.fd, bytes)] }
  else some s

/-- What the kernel may answer: a new descriptor is not open, and `read` fills at most the
buffer. -/
structure Reply.Ok (s : State) (r : Reply) : Prop where
  accept : ∀ c, r.accept = .fd c → 0 ≤ c ∧ c ≠ listenfd ∧ c ∉ s.conns
  read : ∀ bytes, r.read = .data bytes → bytes ≠ [] ∧ bytes.length ≤ 1024

/-- A step of the server, with the answers of the kernel. -/
inductive Step (r : Reply) (s : State) : State → Prop
  /-- `epoll_wait` returns a batch of events of registered descriptors; an empty one when
  it fails. -/
  | wait (events : List Event) (hb : s.batch = []) (hmem : ∀ e ∈ events, e.fd ∈ s.interest)
      (hnd : (events.map Event.fd).Nodup) (hlen : events.length ≤ 4096) :
      Step r s { s with batch := events }
  /-- The next event is handled. -/
  | handle {t : State} {e : Event} {rest : List Event} (hb : s.batch = e :: rest)
      (hr : r.Ok listenfd s) (ht : handle listenfd s e r = some t) :
      Step r s { t with batch := rest }

/-- A step with some answers. -/
def Next (s t : State) : Prop := ∃ r, Step listenfd r s t

/-- The server before the loop. -/
def Init (s : State) : Prop := ∃ garbage, s = State.start listenfd garbage

/-- The states of the server in all runs. -/
def Reach (s : State) : Prop := Reachable (Init listenfd) (Next listenfd) s

/-- The interest set is what it should be. -/
def Registered (s : State) : Prop := s.interest = insert listenfd s.conns

instance (s : State) : Decidable (Registered listenfd s) :=
  inferInstanceAs (Decidable (s.interest = insert listenfd s.conns))

/-- The event finds its client gone. -/
def Event.Disconnects (e : Event) (r : Reply) : Prop :=
  e.fd ≠ listenfd ∧ e.epollin = true ∧ 0 ≤ e.fd ∧ r.read = .closed

/-- If the next event is a disconnect, `connfd` is its own descriptor or no open
connection. -/
def OwnDescriptor (s : State) (r : Reply) : Prop :=
  ∀ e rest, s.batch = e :: rest → e.Disconnects listenfd r →
    s.connfd = e.fd ∨ s.connfd ∉ s.conns

/-- The steps that meet the condition. -/
def OwnNext (s t : State) : Prop := ∃ r, Step listenfd r s t ∧ OwnDescriptor listenfd s r

variable {listenfd}

/-! ## What handling an event can do -/

/-- The ways in which an event is handled. -/
lemma handle_cases {s t : State} {e : Event} {r : Reply} (h : handle listenfd s e r = some t) :
    (listenfd = e.fd ∧ r.accept = .eintr ∧ t = { s with connfd := -1 }) ∨
    (∃ c, listenfd = e.fd ∧ r.accept = .fd c ∧ t = { s with
      connfd := c, conns := insert c s.conns, interest := insert c s.interest }) ∨
    (e.Disconnects listenfd r ∧ t = { s with
      interest := (s.interest.erase s.connfd).erase e.fd, conns := s.conns.erase e.fd }) ∨
    (¬ e.Disconnects listenfd r ∧ e.fd ≠ listenfd ∧
      ∃ written, t = { s with written := written }) := by
  rw [handle] at h
  split at h
  · next hl =>
    split at h
    · next ha => exact Or.inl ⟨hl, ha, (Option.some.inj h).symm⟩
    · cases h
    · next c ha => exact Or.inr (Or.inl ⟨c, hl, ha, (Option.some.inj h).symm⟩)
  · next hl =>
    have hne : e.fd ≠ listenfd := fun heq => hl heq.symm
    right
    right
    split at h
    · next hin =>
      split at h
      · next hneg =>
        refine Or.inr ⟨fun hd => ?_, hne, s.written, (Option.some.inj h).symm⟩
        exact absurd hd.2.2.1 (by omega)
      · next hneg =>
        split at h
        · next hr => exact Or.inl ⟨⟨hne, hin, by omega, hr⟩, (Option.some.inj h).symm⟩
        · next bytes hr =>
          refine Or.inr ⟨fun hd => ?_, hne, _, (Option.some.inj h).symm⟩
          rw [hd.2.2.2] at hr
          cases hr
    · next hin =>
      exact Or.inr ⟨fun hd => hin hd.2.1, hne, s.written, (Option.some.inj h).symm⟩

/-! ## What holds in every run -/

/-- The descriptors are apart, and the events that are still to be handled belong to the
listening descriptor or to open connections. -/
structure Inv (listenfd : ℤ) (s : State) : Prop where
  listen : listenfd ∉ s.conns
  connfd : s.conns.Nonempty → s.connfd ≠ listenfd
  interest : s.interest ⊆ insert listenfd s.conns
  batch : ∀ e ∈ s.batch, e.fd = listenfd ∨ e.fd ∈ s.conns
  nodup : (s.batch.map Event.fd).Nodup

lemma Inv.handle (hl : 0 ≤ listenfd) {s t : State} {e : Event} {rest : List Event} {r : Reply}
    (hs : Inv listenfd s) (hb : s.batch = e :: rest) (hr : r.Ok listenfd s)
    (ht : handle listenfd s e r = some t) : Inv listenfd { t with batch := rest } := by
  have hrest : ∀ e' ∈ rest, e'.fd = listenfd ∨ e'.fd ∈ s.conns := fun e' he' =>
    hs.batch e' (by rw [hb]; exact List.mem_cons_of_mem e he')
  have hnd : e.fd ∉ rest.map Event.fd ∧ (rest.map Event.fd).Nodup := by
    have := hs.nodup
    rwa [hb, List.map_cons, List.nodup_cons] at this
  rcases handle_cases ht with ⟨-, -, rfl⟩ | ⟨c, -, hc, rfl⟩ | ⟨-, rfl⟩ | ⟨-, -, w, rfl⟩
  · exact ⟨hs.listen, fun _ => by dsimp only; omega, hs.interest, hrest, hnd.2⟩
  · obtain ⟨-, hne, -⟩ := hr.accept c hc
    refine ⟨?_, fun _ => hne, ?_, fun e' he' => ?_, hnd.2⟩
    · simp only [Finset.mem_insert, not_or]
      exact ⟨hne.symm, hs.listen⟩
    · rw [Finset.insert_comm]
      exact Finset.insert_subset_insert c hs.interest
    · rcases hrest e' he' with h | h
      · exact Or.inl h
      · exact Or.inr (Finset.mem_insert_of_mem h)
  · refine ⟨fun h => hs.listen (Finset.mem_of_mem_erase h), fun h => ?_, fun x hx => ?_,
      fun e' he' => ?_, hnd.2⟩
    · exact hs.connfd (h.mono (Finset.erase_subset _ _))
    · obtain ⟨hx1, hx2⟩ := Finset.mem_erase.1 hx
      rcases Finset.mem_insert.1 (hs.interest (Finset.mem_of_mem_erase hx2)) with h | h
      · exact Finset.mem_insert.2 (Or.inl h)
      · exact Finset.mem_insert_of_mem (Finset.mem_erase.2 ⟨hx1, h⟩)
    · -- the other events of the batch are of other connections
      have hne : e'.fd ≠ e.fd := fun heq => hnd.1 (heq ▸ List.mem_map_of_mem he')
      rcases hrest e' he' with h | h
      · exact Or.inl h
      · exact Or.inr (Finset.mem_erase.2 ⟨hne, h⟩)
  · exact ⟨hs.listen, hs.connfd, hs.interest, hrest, hnd.2⟩

lemma Step.inv (hl : 0 ≤ listenfd) {s t : State} {r : Reply} (hst : Step listenfd r s t)
    (hs : Inv listenfd s) : Inv listenfd t := by
  cases hst with
  | wait events hb hmem hnd hlen =>
    exact ⟨hs.listen, hs.connfd, hs.interest,
      fun e he => Finset.mem_insert.1 (hs.interest (hmem e he)), hnd⟩
  | handle hb hr ht => exact hs.handle hl hb hr ht

lemma Reach.inv (hl : 0 ≤ listenfd) {s : State} (h : Reach listenfd s) : Inv listenfd s := by
  refine Reachable.invariant ?_ ?_ h
  · rintro s ⟨garbage, rfl⟩
    exact ⟨Finset.notMem_empty _, fun hne => absurd hne Finset.not_nonempty_empty,
      Finset.Subset.refl _, fun e he => absurd he List.not_mem_nil, List.nodup_nil⟩
  · rintro s t - hs ⟨r, hst⟩
    exact hst.inv hl hs

/-! ## The interest set -/

/-- A disconnect keeps the interest set right exactly when `connfd` is the descriptor of the
client or no open connection. -/
lemma Inv.registered_disconnect {s : State} (hs : Inv listenfd s)
    (hreg : Registered listenfd s) {fd : ℤ} (hfd : fd ∈ s.conns) :
    (s.interest.erase s.connfd).erase fd = insert listenfd (s.conns.erase fd) ↔
      s.connfd = fd ∨ s.connfd ∉ s.conns := by
  have hlfd : listenfd ≠ fd := fun heq => hs.listen (heq ▸ hfd)
  constructor
  · intro heq
    by_contra hnot
    push Not at hnot
    -- the connection accepted last stays open and is not registered any more
    have hmem : s.connfd ∈ insert listenfd (s.conns.erase fd) :=
      Finset.mem_insert_of_mem (Finset.mem_erase.2 hnot)
    rw [← heq] at hmem
    exact (Finset.mem_erase.1 (Finset.mem_of_mem_erase hmem)).1 rfl
  · rintro (heq | hclosed)
    · rw [heq, Finset.erase_idem, hreg, Finset.erase_insert_of_ne hlfd]
    · have hne : s.connfd ≠ listenfd := hs.connfd ⟨fd, hfd⟩
      have hout : s.connfd ∉ insert listenfd s.conns := by
        rw [Finset.mem_insert, not_or]
        exact ⟨hne, hclosed⟩
      rw [hreg, Finset.erase_eq_of_notMem hout, Finset.erase_insert_of_ne hlfd]

lemma Step.registered_iff {s t : State} {r : Reply} (hst : Step listenfd r s t)
    (hs : Inv listenfd s) (hreg : Registered listenfd s) :
    Registered listenfd t ↔ OwnDescriptor listenfd s r := by
  cases hst with
  | wait events hb hmem hnd hlen =>
    refine iff_of_true hreg fun e rest he => ?_
    rw [hb] at he
    cases he
  | @handle t e rest hb hr ht =>
    have hown : OwnDescriptor listenfd s r ↔
        (e.Disconnects listenfd r → s.connfd = e.fd ∨ s.connfd ∉ s.conns) := by
      constructor
      · exact fun h => h e rest hb
      · intro h e' rest' he'
        rw [hb, List.cons.injEq] at he'
        rw [← he'.1]
        exact h
    rw [hown]
    rcases handle_cases ht with ⟨hfd, -, rfl⟩ | ⟨c, hfd, -, rfl⟩ | ⟨hd, rfl⟩ | ⟨hd, -, w, rfl⟩
    · exact iff_of_true hreg fun hd => absurd hfd.symm hd.1
    · refine iff_of_true ?_ fun hd => absurd hfd.symm hd.1
      have : s.interest = insert listenfd s.conns := hreg
      simp only [Registered, this]
      exact Finset.insert_comm _ _ _
    · have hopen : e.fd ∈ s.conns := by
        rcases hs.batch e (by rw [hb]; exact List.mem_cons_self) with h | h
        · exact absurd h hd.1
        · exact h
      rw [forall_prop_of_true hd]
      exact hs.registered_disconnect hreg hopen
    · exact iff_of_true hreg fun hd' => absurd hd' hd

/-- **When the interest set is right.**  In a run in which every disconnect comes when
`connfd` is the client's own descriptor or no open connection, the interest set always is
the listening descriptor and the open connections; and a step that does not meet this
condition leads to a state in which it is not. -/
theorem registered_iff_ownDescriptor (hl : 0 ≤ listenfd) :
    (∀ s, Reachable (Init listenfd) (OwnNext listenfd) s → Registered listenfd s) ∧
      ∀ s t r, Reach listenfd s → Registered listenfd s → Step listenfd r s t →
        (Registered listenfd t ↔ OwnDescriptor listenfd s r) := by
  refine ⟨fun s h => ?_, fun s t r hs hreg hst => hst.registered_iff (hs.inv hl) hreg⟩
  refine h.invariant ?_ ?_
  · rintro s ⟨garbage, rfl⟩
    rfl
  · rintro s t hs hreg ⟨r, hst, hown⟩
    have hreach : Reach listenfd s := hs.mono fun _ _ ⟨r, hst, _⟩ => ⟨r, hst⟩
    exact (hst.registered_iff (hreach.inv hl) hreg).2 hown

lemma Reply.ok_accept {s : State} {c : ℤ} (h : 0 ≤ c ∧ c ≠ listenfd ∧ c ∉ s.conns) :
    Reply.Ok listenfd s ⟨.fd c, .closed⟩ := by
  refine ⟨fun c' hc => ?_, fun bytes hb => by cases hb⟩
  cases hc
  exact h

lemma Reply.ok_closed {s : State} : Reply.Ok listenfd s ⟨.eintr, .closed⟩ := by
  refine ⟨fun c hc => ?_, fun bytes hb => ?_⟩
  · cases hc
  · cases hb

/-- A batch with one event. -/
lemma Step.wait_one {s : State} {r : Reply} (e : Event) (hb : s.batch = [])
    (hmem : e.fd ∈ s.interest) : Step listenfd r s { s with batch := [e] } := by
  refine .wait [e] hb (fun e' he' => ?_) (List.nodup_singleton _) (by norm_num)
  rw [List.mem_singleton.1 he']
  exact hmem

/-- One client came and went. -/
def servedClient : State := ⟨∅, {3}, 5, [], []⟩

lemma servedClient_reachable : Reachable (Init 3) (OwnNext 3) servedClient := by
  have h₀ : Reachable (Init 3) (OwnNext 3) (State.start 3 0) := .of_init ⟨0, rfl⟩
  have h₁ := (h₀.tail ⟨⟨.eintr, .closed⟩, .wait_one ⟨3, true⟩ rfl (by decide),
      fun e rest hb => by cases hb⟩).tail
    ⟨⟨.fd 5, .closed⟩, .handle rfl (Reply.ok_accept (by decide)) rfl,
      fun e rest hb hd => by cases hb; exact absurd rfl hd.1⟩
  have h₂ := (h₁.tail ⟨⟨.eintr, .closed⟩, .wait_one ⟨5, true⟩ rfl (by decide),
      fun e rest hb => by cases hb⟩).tail
    ⟨⟨.eintr, .closed⟩, .handle rfl Reply.ok_closed rfl,
      fun e rest hb hd => by cases hb; exact Or.inl rfl⟩
  exact h₂

theorem registered_servedClient : 0 ≤ (3 : ℤ) ∧ Registered 3 servedClient :=
  ⟨by decide, (registered_iff_ownDescriptor (by decide)).1 _ servedClient_reachable⟩

/-- Two clients came, and the first of them went.  The server waits for events; the second
client is open and not registered. -/
def lostClient : State := ⟨{6}, {3}, 6, [], []⟩

theorem not_registered_lostClient :
    Reach 3 lostClient ∧ lostClient.batch = [] ∧ ¬ Registered 3 lostClient := by
  refine ⟨?_, rfl, by decide⟩
  have h₀ : Reach 3 (State.start 3 0) := .of_init ⟨0, rfl⟩
  -- the clients 5 and 6 come
  have h₁ := (h₀.tail ⟨⟨.eintr, .closed⟩, .wait_one ⟨3, true⟩ rfl (by decide)⟩).tail
    ⟨⟨.fd 5, .closed⟩, .handle rfl (Reply.ok_accept (by decide)) rfl⟩
  have h₂ := (h₁.tail ⟨⟨.eintr, .closed⟩, .wait_one ⟨3, true⟩ rfl (by decide)⟩).tail
    ⟨⟨.fd 6, .closed⟩, .handle rfl (Reply.ok_accept (by decide)) rfl⟩
  -- client 5 goes
  have h₃ := (h₂.tail ⟨⟨.eintr, .closed⟩, .wait_one ⟨5, true⟩ rfl (by decide)⟩).tail
    ⟨⟨.eintr, .closed⟩, .handle rfl Reply.ok_closed rfl⟩
  exact h₃

end CppExample.Echo.EpollServer
