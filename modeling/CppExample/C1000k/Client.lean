/-
# The c1000k client

The main loop of `network/demo4_c1000k_client.cpp`.  A round creates a socket, as long as there
are fewer than 100000 connections, and in some rounds a batch of events is handled after that.
`sockfd` is the socket that the round has created, and 0 if it has created none; `clientfd` is
the descriptor of an event.  The handling of an event sends to and receives from `sockfd`, but
closes `clientfd`.

The record `handled` has the calls that were made for each event, and the value of `sockfd` at
that time.  An event is handled on its own connection when these agree, or when nothing is
transferred and nothing goes wrong: `proper_iff_own`.

The ports, the options of the sockets, the first message on a connection and what is printed
are left out.
-/
import CppExample.Lib.Run
import Mathlib.Data.Finset.Insert
import Mathlib.Data.Finset.Erase

namespace CppExample.C1000k.Client
open Lib

/-- The values of `errno` that make a difference. -/
inductive Errno where
  | eintr
  /-- There is nothing to receive, which is no failure of the stream. -/
  | eagain
  | other
deriving DecidableEq, Repr

/-- The result of `recv`. -/
inductive RecvResult where
  | data (bytes : List UInt8)
  /-- 0: the stream has ended. -/
  | closed
  | failed (errno : Errno)
deriving DecidableEq, Repr

/-- An event that `epoll_wait` reports, with the result of the call that is made for it. -/
structure Event where
  clientfd : ℤ
  epollin : Bool
  epollout : Bool
  /-- The number of bytes that `send` accepts; `none` is -1. -/
  send : Option ℕ
  recv : RecvResult
deriving DecidableEq, Repr

/-- What is done for an event. -/
inductive Act where
  | send (fd : ℤ) (text : String) (result : Option ℕ)
  | recv (fd : ℤ) (len : ℕ) (result : RecvResult)
  | close (fd : ℤ)
  /-- `connections--`. -/
  | disconnect
deriving DecidableEq, Repr

/-- An event that was handled, with `sockfd`. -/
structure Handled where
  event : Event
  sockfd : ℤ
  acts : List Act
deriving DecidableEq, Repr

/-- The variables of the loop, and the open connections, which are those that are registered. -/
structure State where
  connections : ℤ
  isContinue : Bool
  wbuf : String
  sockfd : ℤ
  watched : Finset ℤ
  handled : List Handled

/-- The client before the loop. -/
def State.start : State where
  connections := 0
  isContinue := false
  wbuf := " Data From MulClient\n"
  sockfd := 0
  watched := ∅
  handled := []

/-- The results of the calls of a round. -/
structure Round where
  /-- `none` is -1. -/
  socket : Option ℤ
  /-- `connect` succeeds. -/
  connect : Bool
  /-- What `epoll_wait` reports; nothing when it fails. -/
  batch : List Event
deriving DecidableEq, Repr

/-- `!strcmp(rbuf, "quit")`. -/
def isQuit (rbuf : List UInt8) : Bool := rbuf.takeWhile (· ≠ 0) = [113, 117, 105, 116]

namespace State

/-- Record what is done for an event. -/
def did (s : State) (e : Event) (acts : List Act) : State :=
  { s with handled := s.handled ++ [⟨e, s.sockfd, acts⟩] }

/-- `close`, which also removes the registration. -/
def closeFd (s : State) (fd : ℤ) : State := { s with watched := s.watched.erase fd }

/-- The body of the loop over a batch. -/
def handleEvent (s : State) (e : Event) : State :=
  if e.epollout then
    let wbuf := "data from " ++ toString e.clientfd ++ "\n"
    { s.did e [.send s.sockfd wbuf e.send] with wbuf := wbuf }
  else if e.epollin then
    let recv := Act.recv s.sockfd s.wbuf.utf8ByteSize e.recv
    match e.recv with
    | .data rbuf =>
      { s.did e [recv] with isContinue := if isQuit rbuf then false else s.isContinue }
    | .closed =>
      { (s.closeFd e.clientfd).did e [recv, .disconnect, .close e.clientfd] with
        connections := s.connections - 1 }
    | .failed .eintr => s.did e [recv]
    | .failed _ => (s.closeFd e.clientfd).did e [recv, .close e.clientfd]
  else (s.closeFd e.clientfd).did e [.close e.clientfd]

/-- The first part of a round.  The program ends when a socket cannot be created or
connected. -/
def create (s : State) (r : Round) : Option State :=
  let s := { s with sockfd := 0 }
  if s.connections < (100000 : ℤ) ∧ s.isContinue = false then
    match r.socket with
    | none => none
    | some sockfd =>
      if r.connect then
        some { s with
          sockfd := sockfd
          wbuf := "Hello Server: client --> " ++ toString s.connections ++ "\n"
          watched := insert sockfd s.watched
          connections := s.connections + 1 }
      else none
  else some s

/-- Events are handled in this round. -/
def due (s : State) : Bool := s.connections.tmod 1000 = 999 ∨ 100000 ≤ s.connections

/-- A round of the loop. -/
def round (s : State) (r : Round) : Option State :=
  (s.create r).map fun s => if s.due then r.batch.foldl handleEvent s else s

end State

/-- What the kernel guarantees about the calls for an event. -/
def Event.Ok (s : State) (e : Event) : Prop :=
  (∀ n, e.send = some n → n ≤ ("data from " ++ toString e.clientfd ++ "\n").utf8ByteSize) ∧
    ∀ bytes, e.recv = .data bytes → bytes ≠ [] ∧ bytes.length ≤ s.wbuf.utf8ByteSize

/-- The same for a batch. -/
def BatchOk : State → List Event → Prop
  | _, [] => True
  | s, e :: batch => e.Ok s ∧ BatchOk (s.handleEvent e) batch

/-- What the kernel guarantees in a round: a new socket has a new number, and the events are
for different open connections, at most as many as were asked for. -/
def Round.Ok (s : State) (r : Round) : Prop :=
  (∀ fd, r.socket = some fd → 0 ≤ fd ∧ fd ∉ s.watched) ∧
    ∀ t, s.create r = some t → (r.batch.map Event.clientfd).Nodup ∧
      (∀ e ∈ r.batch, e.clientfd ∈ t.watched) ∧ r.batch.length ≤ t.connections ∧
        BatchOk t r.batch

/-- A round of the client. -/
def Step (r : Round) (s t : State) : Prop := r.Ok s ∧ s.round r = some t

/-! ## Events and their connections -/

/-- The descriptor that bytes are sent or received through. -/
def Act.through : Act → Option ℤ
  | send fd _ (some (_ + 1)) => some fd
  | recv fd _ (.data _) => some fd
  | _ => none

/-- The call tells that the stream has ended or failed. -/
def Act.ends : Act → Option ℤ
  | recv fd _ .closed => some fd
  | recv fd _ (.failed .other) => some fd
  | _ => none

/-- The event was handled on its own connection: bytes went through `clientfd` only, and it
was closed, or the counter decremented, only because its stream has ended or failed, as a call
or the event itself has told. -/
structure Handled.Proper (x : Handled) : Prop where
  through : ∀ a ∈ x.acts, ∀ fd, a.through = some fd → fd = x.event.clientfd
  closed : .close x.event.clientfd ∈ x.acts ∨ .disconnect ∈ x.acts →
    (∃ a ∈ x.acts, a.ends = some x.event.clientfd) ∨
      (x.event.epollout = false ∧ x.event.epollin = false)

/-- `sockfd` is the connection of the event and there is something to receive, or nothing is
done that matters. -/
def Handled.Own (x : Handled) : Prop :=
  if x.event.epollout then x.sockfd = x.event.clientfd ∨ x.event.send.getD 0 = 0
  else if x.event.epollin then
    x.event.recv = .failed .eintr ∨
      (x.sockfd = x.event.clientfd ∧ x.event.recv ≠ .failed .eagain)
  else True

variable {s t : State} {e : Event} {fd : ℤ}

/-- An event for which one call is made, and nothing is closed. -/
lemma proper_single {a : Act} (hclose : a ≠ .close e.clientfd) (hdisconnect : a ≠ .disconnect) :
    Handled.Proper ⟨e, fd, [a]⟩ ↔ ∀ fd', a.through = some fd' → fd' = e.clientfd := by
  constructor
  · exact fun h => h.through a (List.mem_singleton_self a)
  · intro h
    constructor
    · intro b hb
      rw [List.mem_singleton.1 hb]
      exact h
    · rintro (hmem | hmem)
      · exact absurd (List.mem_singleton.1 hmem).symm hclose
      · exact absurd (List.mem_singleton.1 hmem).symm hdisconnect

lemma proper_send {text : String} :
    Handled.Proper ⟨e, fd, [.send fd text e.send]⟩ ↔ fd = e.clientfd ∨ e.send.getD 0 = 0 := by
  rw [proper_single (by simp) (by simp)]
  cases e.send with
  | none => simp [Act.through]
  | some n =>
    cases n with
    | zero => simp [Act.through]
    | succ n => simp [Act.through]

/-- A descriptor that is closed because of a call of `recv`. -/
lemma proper_recv {len : ℕ} {acts : List Act} (hin : e.epollin = true)
    (hacts : ∀ a ∈ acts, a.through = none ∧ a.ends = none)
    (hclose : .close e.clientfd ∈ acts) (hdata : ∀ bytes, e.recv ≠ .data bytes) :
    Handled.Proper ⟨e, fd, .recv fd len e.recv :: acts⟩ ↔
      (Act.recv fd len e.recv).ends = some e.clientfd := by
  constructor
  · intro h
    rcases h.closed (Or.inl (List.mem_cons_of_mem _ hclose)) with ⟨a, ha, hends⟩ | ⟨-, hnot⟩
    · rcases List.mem_cons.1 ha with rfl | ha
      · exact hends
      · rw [(hacts a ha).2] at hends
        cases hends
    · exact absurd (hin.symm.trans hnot) (by decide)
  · intro hends
    refine ⟨fun a ha fd' hfd' => ?_, fun _ => Or.inl ⟨_, List.mem_cons_self, hends⟩⟩
    rcases List.mem_cons.1 ha with rfl | ha
    · cases hrecv : e.recv with
      | data bytes => exact absurd hrecv (hdata bytes)
      | closed | failed _ =>
        rw [hrecv] at hfd'
        cases hfd'
    · rw [(hacts a ha).1] at hfd'
      cases hfd'

/-- The handling of a read event. -/
lemma handleEvent_recv (s : State) (hout : e.epollout = false) (hin : e.epollin = true) :
    ∃ acts, (s.handleEvent e).handled = s.handled ++ [⟨e, s.sockfd, acts⟩] ∧
      (s.handleEvent e).sockfd = s.sockfd ∧
      (Handled.Proper ⟨e, s.sockfd, acts⟩ ↔ e.recv = .failed .eintr ∨
        (s.sockfd = e.clientfd ∧ e.recv ≠ .failed .eagain)) := by
  rw [State.handleEvent, hout, if_neg Bool.false_ne_true, hin, if_pos rfl]
  have hclose : ∀ a ∈ [Act.close e.clientfd], a.through = none ∧ a.ends = none := by
    intro a ha
    rw [List.mem_singleton.1 ha]
    exact ⟨rfl, rfl⟩
  have hdisconnect : ∀ a ∈ [Act.disconnect, .close e.clientfd],
      a.through = none ∧ a.ends = none := by
    intro a ha
    rcases List.mem_cons.1 ha with rfl | ha
    · exact ⟨rfl, rfl⟩
    · exact hclose a ha
  cases hrecv : e.recv with
  | data rbuf =>
    refine ⟨_, rfl, rfl, ?_⟩
    rw [proper_single (by simp) (by simp)]
    simp [Act.through]
  | closed =>
    refine ⟨_, rfl, rfl, ?_⟩
    rw [← hrecv, proper_recv hin hdisconnect (by simp) (by simp [hrecv]), hrecv]
    simp [Act.ends]
  | failed errno =>
    cases errno with
    | eintr =>
      refine ⟨_, rfl, rfl, ?_⟩
      rw [proper_single (by simp) (by simp)]
      simp [Act.through]
    | eagain =>
      refine ⟨_, rfl, rfl, ?_⟩
      rw [← hrecv, proper_recv hin hclose (by simp) (by simp [hrecv]), hrecv]
      simp [Act.ends]
    | other =>
      refine ⟨_, rfl, rfl, ?_⟩
      rw [← hrecv, proper_recv hin hclose (by simp) (by simp [hrecv]), hrecv]
      simp [Act.ends]

/-- The handling of an event is recorded, with `sockfd`; it is on the event's connection if
and only if the condition holds. -/
lemma handleEvent_spec (s : State) (e : Event) : ∃ acts,
    (s.handleEvent e).handled = s.handled ++ [⟨e, s.sockfd, acts⟩] ∧
      (s.handleEvent e).sockfd = s.sockfd ∧
      (Handled.Proper ⟨e, s.sockfd, acts⟩ ↔ Handled.Own ⟨e, s.sockfd, acts⟩) := by
  cases hout : e.epollout with
  | true =>
    refine ⟨_, by rw [State.handleEvent, if_pos hout]; rfl, ?_, ?_⟩
    · rw [State.handleEvent, if_pos hout]
      rfl
    · rw [Handled.Own, if_pos hout]
      exact proper_send
  | false =>
    have hnot : ¬ e.epollout = true := by
      rw [hout]
      exact Bool.false_ne_true
    cases hin : e.epollin with
    | true =>
      obtain ⟨acts, hacts, hsockfd, hiff⟩ := handleEvent_recv s hout hin
      refine ⟨acts, hacts, hsockfd, ?_⟩
      rw [Handled.Own, if_neg hnot, if_pos hin]
      exact hiff
    | false =>
      have hnot' : ¬ e.epollin = true := by
        rw [hin]
        exact Bool.false_ne_true
      refine ⟨[.close e.clientfd], by rw [State.handleEvent, if_neg hnot, if_neg hnot']; rfl,
        ?_, ?_⟩
      · rw [State.handleEvent, if_neg hnot, if_neg hnot']
        rfl
      · rw [Handled.Own, if_neg hnot, if_neg hnot']
        refine ⟨fun _ => trivial, fun _ => ⟨fun a ha fd hfd => ?_, fun _ => Or.inr ⟨hout, hin⟩⟩⟩
        obtain rfl := List.mem_singleton.1 ha
        cases hfd

/-! ## Runs -/

/-- Every event that was handled was handled on its own connection if and only if the
condition holds. -/
def Decided (s : State) : Prop := ∀ x ∈ s.handled, x.Proper ↔ x.Own

lemma Decided.handleEvent (h : Decided s) (e : Event) : Decided (s.handleEvent e) := by
  obtain ⟨acts, hacts, -, hiff⟩ := handleEvent_spec s e
  rw [Decided, hacts]
  intro x hx
  rcases List.mem_append.1 hx with hx | hx
  · exact h x hx
  · rw [List.mem_singleton.1 hx]
    exact hiff

lemma Decided.batch (h : Decided s) (batch : List Event) :
    Decided (batch.foldl State.handleEvent s) := by
  induction batch generalizing s with
  | nil => exact h
  | cons e batch ih => exact ih (h.handleEvent e)

/-- The first part of a round handles no events. -/
lemma handled_create {r : Round} (h : s.create r = some t) : t.handled = s.handled := by
  rw [State.create] at h
  dsimp only at h
  split at h
  · split at h
    · cases h
    · split at h
      · cases h
        rfl
      · cases h
  · cases h
    rfl

lemma Step.decided {r : Round} (hst : Step r s t) (h : Decided s) : Decided t := by
  obtain ⟨u, hu, rfl⟩ := Option.map_eq_some_iff.1 hst.2
  have hdec : Decided u := by
    rw [Decided, handled_create hu]
    exact h
  split
  · exact hdec.batch r.batch
  · exact hdec

/-- **When an event is handled on its own connection.**  In every run of the loop, an event is
handled on its own connection if and only if it is an event of the socket that was created in
the same round, with something to receive if it is one for reading; or `send` accepts nothing,
or `recv` is interrupted, or the event is neither for writing nor for reading. -/
theorem proper_iff_own {l : List Round} (h : Trace Step State.start l s) :
    ∀ x ∈ s.handled, x.Proper ↔ x.Own :=
  h.invariant (I := Decided) (fun _ _ _ hs hst => hst.decided hs)
    fun _ hx => absurd hx List.not_mem_nil

/-! ## A run with events -/

/-- `n` sockets were created, with the descriptors from 4 on, and no event was handled. -/
structure Opened (n : ℕ) (s : State) : Prop where
  connections : s.connections = n
  isContinue : s.isContinue = false
  handled : s.handled = []
  mem_watched : ∀ fd, fd ∈ s.watched ↔ 4 ≤ fd ∧ fd < 4 + n

variable {n : ℕ}

lemma opened_start : Opened 0 State.start where
  connections := rfl
  isContinue := rfl
  handled := rfl
  mem_watched := by
    intro fd
    constructor
    · intro hfd
      exact absurd hfd (Finset.notMem_empty fd)
    · rintro ⟨hle, hlt⟩
      omega

/-- The next socket is created. -/
lemma Opened.create (h : Opened n s) (hn : n < 100000) (batch : List Event) :
    ∃ t, s.create ⟨some (4 + n), true, batch⟩ = some t ∧ t.sockfd = 4 + n ∧
      Opened (n + 1) t := by
  refine ⟨{ s with
    sockfd := 4 + n
    wbuf := "Hello Server: client --> " ++ toString s.connections ++ "\n"
    watched := insert (4 + n : ℤ) s.watched
    connections := s.connections + 1 }, ?_, rfl, ?_⟩
  · have hlt : s.connections < 100000 ∧ s.isContinue = false := by
      refine ⟨?_, h.isContinue⟩
      rw [h.connections]
      omega
    rw [State.create]
    dsimp only
    rw [if_pos hlt, if_pos rfl]
  · constructor
    · dsimp only
      rw [h.connections]
      push_cast
      rfl
    · exact h.isContinue
    · exact h.handled
    · intro fd
      rw [Finset.mem_insert, h.mem_watched]
      push_cast
      constructor
      · rintro (rfl | ⟨hle, hlt⟩) <;> omega
      · rintro ⟨hle, hlt⟩
        omega

/-- A round that creates the next socket is possible with every batch of one event that is
possible. -/
lemma Opened.ok (h : Opened n s) {batch : List Event} {t : State}
    (hcreate : s.create ⟨some (4 + n), true, batch⟩ = some t)
    (hbatch : batch.Pairwise fun e e' => e.clientfd ≠ e'.clientfd)
    (hmem : ∀ e ∈ batch, e.clientfd ∈ t.watched) (hlength : batch.length ≤ t.connections)
    (hok : BatchOk t batch) : Round.Ok s ⟨some (4 + n), true, batch⟩ := by
  refine ⟨fun fd hfd => ?_, fun u hu => ?_⟩
  · cases hfd
    rw [h.mem_watched]
    omega
  · obtain rfl := Option.some.inj (hcreate.symm.trans hu)
    exact ⟨List.pairwise_map.2 hbatch, hmem, hlength, hok⟩

/-- A round without events. -/
lemma Opened.exists_step (h : Opened n s) (hn : n < 100000) :
    ∃ r t, Step r s t ∧ Opened (n + 1) t := by
  obtain ⟨t, ht, -, hopened⟩ := h.create hn []
  have hlength : (([] : List Event).length : ℤ) ≤ t.connections := by
    rw [hopened.connections]
    exact Int.natCast_nonneg _
  have hok := h.ok ht List.Pairwise.nil (fun e he => absurd he List.not_mem_nil) hlength trivial
  refine ⟨_, t, ⟨hok, ?_⟩, hopened⟩
  rw [State.round, ht, Option.map_some, List.foldl_nil, ite_self]

lemma exists_opened (hn : n ≤ 100000) : ∃ l s, Trace Step State.start l s ∧ Opened n s := by
  induction n with
  | zero => exact ⟨[], _, .nil _, opened_start⟩
  | succ n ih =>
    obtain ⟨l, s, hrun, hopened⟩ := ih (by omega)
    obtain ⟨r, t, hst, hopened'⟩ := hopened.exists_step hn
    exact ⟨l ++ [r], t, hrun.append (.cons hst (.nil t)), hopened'⟩

/-- An event for writing, for which `send` accepts one byte. -/
def writable (fd : ℤ) : Event := ⟨fd, false, true, some 1, .failed .eagain⟩

lemma writable_ok : (writable fd).Ok s := by
  refine ⟨fun n hn => ?_, fun bytes h => nomatch h⟩
  cases hn
  rw [String.utf8ByteSize_append, String.utf8ByteSize_append]
  exact Nat.le_add_left _ _

/-- The first round in which events are handled, for one of the connections. -/
lemma exists_handled (fd : ℤ) (hle : 4 ≤ fd) (hlt : fd < 1003) :
    ∃ l s, Trace Step State.start l s ∧ ∃ acts, ⟨writable fd, 1002, acts⟩ ∈ s.handled ∧
      (Handled.Proper ⟨writable fd, 1002, acts⟩ ↔ Handled.Own ⟨writable fd, 1002, acts⟩) := by
  obtain ⟨l, s, hrun, hopened⟩ := exists_opened (n := 998) (by omega)
  obtain ⟨t, ht, hsockfd, hopened'⟩ := hopened.create (by omega) [writable fd]
  have hmem : ∀ e ∈ [writable fd], e.clientfd ∈ t.watched := by
    intro e he
    rw [List.mem_singleton.1 he, hopened'.mem_watched]
    exact ⟨hle, hlt⟩
  have hlength : ([writable fd].length : ℤ) ≤ t.connections := by
    rw [hopened'.connections, List.length_singleton]
    omega
  have hok := hopened.ok ht (List.pairwise_singleton _ _) hmem hlength ⟨writable_ok, trivial⟩
  have hdue : t.due = true := by
    rw [State.due, hopened'.connections]
    decide
  have hround : s.round ⟨some (4 + (998 : ℕ)), true, [writable fd]⟩ =
      some (t.handleEvent (writable fd)) := by
    rw [State.round, ht, Option.map_some, if_pos hdue]
    rfl
  obtain ⟨acts, hacts, -, hiff⟩ := handleEvent_spec t (writable fd)
  rw [hsockfd] at hacts hiff
  refine ⟨_, _, hrun.append (.cons ⟨hok, hround⟩ (.nil _)), acts, ?_, hiff⟩
  rw [hacts]
  exact List.mem_append_right _ (List.mem_singleton_self _)

/-- The event is for the socket that was created in the same round. -/
theorem proper_newest : ∃ l s, Trace Step State.start l s ∧
    ∃ x ∈ s.handled, x.event = writable 1002 ∧ x.Proper := by
  obtain ⟨l, s, hrun, acts, hmem, -⟩ := exists_handled 1002 (by omega) (by omega)
  exact ⟨l, s, hrun, _, hmem, rfl, (proper_iff_own hrun _ hmem).2 (Or.inl rfl)⟩

/-- The event is for the first socket, and a byte goes through the last one. -/
theorem not_proper_first : ∃ l s, Trace Step State.start l s ∧
    ∃ x ∈ s.handled, x.event = writable 4 ∧ ¬ x.Proper := by
  obtain ⟨l, s, hrun, acts, hmem, hiff⟩ := exists_handled 4 (by omega) (by omega)
  refine ⟨l, s, hrun, _, hmem, rfl, fun hproper => ?_⟩
  rcases hiff.1 hproper with (hsockfd : (1002 : ℤ) = 4) | (hsend : 1 = 0)
  · omega
  · omega

end CppExample.C1000k.Client
