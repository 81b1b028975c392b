/-
# A libev client and its server

`libev/demo1_echo_client.cpp` and `libev/demo1_echo_server.cpp` with a connection between them,
while the server has other clients too.  The connection keeps the bytes in order and does not break.
Each side learns of the end of the connection when the other one has closed its socket.

A server whose writes are `whole` loses nothing, and then what the client prints is the beginning of
what was typed: `echoed_in_order`.  Neither side ever closes the connection, since the server closes
no socket and the client waits for the server: at the end of its input nothing happens.
-/
import CppExample.Libev.EchoClient
import CppExample.Libev.LostBytes

namespace CppExample.Libev
open Lib

/-! ## A server whose writes are whole -/

/-- If `io_cb` writes, then everything in the buffer is accepted. -/
def Whole (s : State) : Input → Prop
  | .acceptCb _ => True
  | .ioCb c => ∀ x b, s.watchers c.watcher = some x → s.bufs x.data = some b →
      b.len ≤ c.write.getD 0

/-- As many bytes were written as were read, but for those in the buffer. -/
structure Even (s : State) : Prop where
  watched : ∀ w x b, s.watchers w = some x → s.bufs x.data = some b →
    (s.received x.fd).length = (s.sent x.fd).length + b.len
  unwatched : ∀ fd, (∀ w x, s.watchers w = some x → x.fd ≠ fd) →
    (s.received fd).length = (s.sent fd).length

variable {s t : State} {i : Input} {fd : ℤ}

lemma even_start : Even State.start := by
  refine ⟨fun w x b hx => ?_, fun fd _ => rfl⟩
  cases hx

/-- The log, and what the watchers and the buffers say, stay as they are. -/
lemma Even.of_same (h : Even s) (hlog : t.log = s.log) (hwatchers : t.watchers = s.watchers)
    (hbufs : t.bufs = s.bufs) : Even t := by
  have hfd := log_congr hlog
  refine ⟨fun w x b hx hb => ?_, fun fd hfd' => ?_⟩
  · rw [(hfd x.fd).1, (hfd x.fd).2]
    exact h.watched w x b (hwatchers ▸ hx) (hbufs ▸ hb)
  · rw [(hfd fd).1, (hfd fd).2]
    exact h.unwatched fd fun w x hx => hfd' w x (hwatchers ▸ hx)

/-- A new client has sent nothing yet. -/
lemma Even.register (h : Even s) (hs : Inv s) (hin : Intact s) {c : AcceptCall}
    (hfd : fd ∉ s.sockets) (hw : s.watchers c.ioWatcher = none) (hbuf : s.bufs c.buf = none)
    {blank : Finset ℕ} :
    Even (State.register { s with blank := blank, sockets := insert fd s.sockets } c fd) := by
  obtain ⟨hreceived, hsent⟩ := hin.fresh fd hfd
  refine ⟨fun w x b hx hb => ?_, fun fd' hfd' => h.unwatched fd' fun w x hx => ?_⟩
  · rcases update_some_eq_some.1 hx with ⟨-, rfl⟩ | ⟨-, hx⟩
    · rcases update_some_eq_some.1 hb with ⟨-, rfl⟩ | ⟨hne, -⟩
      · show (s.received fd).length = (s.sent fd).length + 0
        rw [hreceived, hsent]
        rfl
      · exact absurd rfl hne
    · rcases update_some_eq_some.1 hb with ⟨heq, -⟩ | ⟨-, hb⟩
      · exact absurd heq (hs.data_ne hx hbuf)
      · exact h.watched w x b hx hb
  · exact hfd' w x (update_eq_some_of_ne (ne_of_free hx hw) hx)

/-- A watcher waits for another event. -/
lemma Even.watch (h : Even s) {w : ℕ} {x : EvIo} (hx : s.watchers w = some x)
    (events : Interest) : Even (s.watch w x events) := by
  refine ⟨fun w' x' b hx' hb => ?_, fun fd hfd => h.unwatched fd fun w' x' hx' => ?_⟩
  · rcases update_some_eq_some.1 hx' with ⟨-, rfl⟩ | ⟨-, hx'⟩
    · exact h.watched w x b hx hb
    · exact h.watched w' x' b hx' hb
  · by_cases heq : w' = w
    · subst heq
      obtain rfl := Option.some.inj (hx.symm.trans hx')
      exact hfd w' { x with events := events } (Function.update_self _ _ _)
    · exact hfd w' x' (update_eq_some_of_ne heq hx')

/-- A client at whose end there is nothing in its buffer. -/
lemma Even.release (h : Even s) {w : ℕ} {x : EvIo} {b : IoBuf} (hx : s.watchers w = some x)
    (hb : s.bufs x.data = some b) (hlen : b.len = 0) : Even (s.release w x b) := by
  refine ⟨fun w' x' b' hx' hb' => ?_, fun fd hfd => ?_⟩
  · exact h.watched w' x' b' (update_none_eq_some.1 hx').2 (update_none_eq_some.1 hb').2
  · by_cases heq : x.fd = fd
    · have heven := h.watched w x b hx hb
      rwa [hlen, heq] at heven
    · refine h.unwatched fd fun w' x' hx' => ?_
      by_cases hw : w' = w
      · subst hw
        obtain rfl := Option.some.inj (hx.symm.trans hx')
        exact heq
      · exact hfd w' x' (update_eq_some_of_ne hw hx')

/-- A callback of watcher `w` has changed the buffer, and added an entry to the log. -/
lemma Even.of_exchange (h : Even s) (hs : Inv s) {w : ℕ} {x : EvIo} {b : IoBuf} {len : ℕ}
    {events : Interest} {bytes : List UInt8} (hx : s.watchers w = some x)
    (hwatchers : t.watchers = Function.update s.watchers w (some { x with events := events }))
    (hbufs : t.bufs = Function.update s.bufs x.data (some { b with len := len }))
    (hlog : t.log = s.log ++ [.recv x.fd bytes] ∨ t.log = s.log ++ [.send x.fd bytes])
    (heven : (t.received x.fd).length = (t.sent x.fd).length + len) : Even t := by
  refine ⟨fun w' x' b' hx' hb' => ?_, fun fd hfd => ?_⟩
  · rw [hwatchers] at hx'
    rw [hbufs] at hb'
    rcases update_some_eq_some.1 hx' with ⟨-, rfl⟩ | ⟨hne, hx'⟩
    · rw [Function.update_self, Option.some.injEq] at hb'
      subst hb'
      exact heven
    · have hdata : x'.data ≠ x.data := fun heq => hne (hs.buf_inj w' w x' x hx' hx heq)
      have hfd : x'.fd ≠ x.fd := fun heq => hne (hs.fd_inj w' w x' x hx' hx heq)
      rw [Function.update_of_ne hdata] at hb'
      rw [(log_of_ne hfd hlog).1, (log_of_ne hfd hlog).2]
      exact h.watched w' x' b' hx' hb'
  · have hne : fd ≠ x.fd := by
      rintro rfl
      exact hfd w { x with events := events } (by rw [hwatchers, Function.update_self]) rfl
    rw [(log_of_ne hne hlog).1, (log_of_ne hne hlog).2]
    refine h.unwatched fd fun w' x' hx' => ?_
    by_cases heq : w' = w
    · subst heq
      obtain rfl := Option.some.inj (hx.symm.trans hx')
      exact hne.symm
    · exact hfd w' x' (by rw [hwatchers]; exact update_eq_some_of_ne heq hx')

/-- A callback whose writes are whole. -/
lemma Step.even (hst : Step i s t) (hs : Inv s) (hin : Intact s) (h : Even s)
    (hwhole : Whole s i) : Even t := by
  have hok := hst.1
  cases hst.outcome with
  | refuse | quiet | error | abandon => exact h.of_same rfl rfl rfl
  | register _ _ hnew _ =>
    obtain ⟨-, ⟨-, hw⟩, hbuf, -, -⟩ := hok
    exact h.register hs hin hnew hw hbuf
  | @release c x b herr hr _ hx hb =>
    refine h.release hx hb ?_
    exact hin.empty _ x b hx hb ((hok.2.2 x hx herr).1 hr)
  | idle _ _ hx _ _ => exact h.watch hx _
  | @recv c x b bytes array _ _ _ _ hx hb harray _ hreg =>
    refine h.of_exchange hs hx rfl rfl (.inl rfl) ?_
    have heven := h.watched _ x b hx hb
    rw [hin.empty _ x b hx hb hreg] at heven
    rw [(received_recv rfl).1, (received_recv rfl).2, List.length_append, heven]
    rfl
  | @send c x b array _ _ _ hx hb _ harray hlen =>
    refine h.of_exchange hs hx rfl rfl (.inr rfl) ?_
    have heven := h.watched _ x b hx hb
    have hfull := hwhole x b hx hb
    rw [(sent_send rfl).1, (sent_send rfl).2, List.length_append, List.length_take,
      List.length_take, heven]
    omega

/-- The bytes in the buffer of the client with this socket; none, if it has no watcher. -/
inductive Buffered (s : State) (fd : ℤ) : List UInt8 → Prop
  | watched {w : ℕ} {x : EvIo} {b : IoBuf} {array : List UInt8} (hx : s.watchers w = some x)
      (hfd : x.fd = fd) (hb : s.bufs x.data = some b) (harray : s.arrays b.data = some array) :
      Buffered s fd (array.take b.len)
  | unwatched (h : ∀ w x, s.watchers w = some x → x.fd ≠ fd) : Buffered s fd []

/-- What was not written is in the buffer. -/
lemma Even.rest (h : Even s) (hs : Inv s) (hin : Intact s) (fd : ℤ) :
    ∃ rest, Buffered s fd rest ∧ rest.length ≤ bufferSize ∧ s.received fd = s.sent fd ++ rest := by
  by_cases hwatched : ∃ w x, s.watchers w = some x ∧ x.fd = fd
  · obtain ⟨w, x, hx, rfl⟩ := hwatched
    obtain ⟨b, hb⟩ := hs.bufs w x hx
    obtain ⟨array, harray, hsize, hle⟩ := hs.arrays x.data b hb
    obtain ⟨gap, hgap⟩ := hin.pending w x b array hx hb harray
    have hlen : (array.take b.len).length = b.len := by
      rw [List.length_take, hsize]
      omega
    -- as many bytes as there are in the buffer were not written, so there is no gap
    have heven := h.watched w x b hx hb
    have hnil : gap = [] := by
      rw [hgap, List.length_append, List.length_append, hlen] at heven
      exact List.length_eq_zero_iff.1 (by omega)
    rw [hnil, List.append_nil] at hgap
    exact ⟨_, .watched hx rfl hb harray, hlen.trans_le hle, hgap⟩
  · push Not at hwatched
    obtain ⟨rest, hrest⟩ := hin.in_order fd
    have hlen := congrArg List.length hrest
    rw [List.length_append, h.unwatched fd hwatched] at hlen
    have hnil : rest = [] := List.length_eq_zero_iff.1 (by omega)
    rw [hnil] at hrest
    exact ⟨[], .unwatched hwatched, Nat.zero_le _, hrest.symm⟩

/-- Nothing is ever written behind a gap. -/
lemma Even.unbroken (h : Even s) : Unbroken s i := by
  cases i with
  | acceptCb c => trivial
  | ioCb c => exact fun x b hx hb _ _ _ _ _ => h.watched _ x b hx hb

/-- The server closes no socket. -/
lemma Step.sockets_subset (hst : Step i s t) : s.sockets ⊆ t.sockets := by
  cases hst.outcome with
  | abandon | register => exact Finset.subset_insert _ _
  | refuse | quiet | error | release | idle | recv | send => exact Finset.Subset.refl _

/-- What `accept_cb` does when `accept` has returned a client. -/
lemma Step.of_accept {c : AcceptCall} (hst : Step (.acceptCb c) s t)
    (herr : c.revents.evError = false) (hfd : c.accept = some fd) :
    fd ∉ s.sockets ∧ fd ∈ t.sockets ∧ t.log = s.log := by
  have hnew := (hst.1.2.2.2.2 fd hfd).2
  cases hst.outcome with
  | refuse h =>
    rcases h with h | ⟨-, h⟩
    · simp [herr] at h
    · simp [hfd] at h
  | abandon _ hfd' =>
    obtain rfl := Option.some.inj (hfd.symm.trans hfd')
    exact ⟨hnew, Finset.mem_insert_self _ _, rfl⟩
  | register _ hfd' =>
    obtain rfl := Option.some.inj (hfd.symm.trans hfd')
    exact ⟨hnew, Finset.mem_insert_self _ _, rfl⟩

/-! ## A session -/

/-- The client, the server, and the connection between them. -/
structure Session where
  server : State
  /-- The descriptor of the client, when the server has accepted it. -/
  fd : Option ℤ
  client : Client
  toServer : List UInt8
  toClient : List UInt8
  /-- What was read from the terminal. -/
  typed : List UInt8
  printed : List UInt8

namespace Session

def start : Session := ⟨State.start, none, .start, [], [], [], []⟩

/-- What a callback of the server reads from the client has arrived, and what it writes is on its
way.  The other clients have nothing to do with it. -/
structure Transfers (s : Session) (i : Input) (t : State) (toServer toClient : List UInt8) :
    Prop where
  read : ∀ fd, s.fd = some fd →
    t.received fd ++ toServer = s.server.received fd ++ s.toServer
  written : ∀ fd, s.fd = some fd →
    ∃ bytes, t.sent fd = s.server.sent fd ++ bytes ∧ toClient = s.toClient ++ bytes
  waiting : s.fd = none → toServer = s.toServer ∧ toClient = s.toClient
  eof : ∀ c x, i = .ioCb c → s.server.watchers c.watcher = some x → s.fd = some x.fd →
    c.revents.evRead = true → c.read = some [] → s.client.connected = false ∧ s.toServer = []

/-- The callbacks of both programs.  The writes of the server are whole. -/
inductive Step : Session → Session → Prop
  | stdin {s : Session} {r : Reply} {c : Client} {given : List UInt8}
      (hlen : r.bytes.length ≤ bufferSize) (h : s.client.stdinCb r = .ok (c, given)) :
      Step s { s with
        client := c
        typed := s.typed ++ r.bytes
        toServer := s.toServer ++ if s.client.connected then given else [] }
  | conn {s : Session} {r : Reply} {c : Client} {given : List UInt8}
      (hc : s.client.connected = true) (hlen : r.bytes.length ≤ bufferSize)
      (hbytes : r.bytes <+: s.toClient) (herror : r ≠ .error)
      (heof : r = .data [] → s.toClient = [] ∧ ∃ fd, s.fd = some fd ∧ fd ∉ s.server.sockets)
      (h : s.client.connCb r = .ok (c, given)) :
      Step s { s with
        client := c
        toClient := s.toClient.drop r.bytes.length
        printed := s.printed ++ given }
  | accept {s : Session} {c : AcceptCall} {fd : ℤ} {t : State} (hnone : s.fd = none)
      (herr : c.revents.evError = false) (hfd : c.accept = some fd)
      (hst : Libev.Step (.acceptCb c) s.server t) :
      Step s { s with server := t, fd := some fd }
  | serve {s : Session} {i : Input} {t : State} {toServer toClient : List UInt8}
      (hst : Libev.Step i s.server t) (hwhole : Whole s.server i)
      (h : s.Transfers i t toServer toClient) :
      Step s { s with server := t, toServer := toServer, toClient := toClient }

/-- What is typed goes to the server, and what the server writes is printed. -/
structure Linked (s : Session) : Prop where
  inv : Inv s.server
  intact : Intact s.server
  even : Even s.server
  empty : s.client.Empty
  connected : s.client.connected = true
  accepted : ∀ fd, s.fd = some fd → fd ∈ s.server.sockets ∧
    s.server.received fd ++ s.toServer = s.typed ∧ s.printed ++ s.toClient = s.server.sent fd
  waiting : s.fd = none → s.toServer = s.typed ∧ s.printed = [] ∧ s.toClient = []

variable {s t : Session}

lemma linked_start : start.Linked :=
  ⟨inv_start, intact_start, even_start, ⟨rfl, rfl⟩, rfl, by simp [start], fun _ => ⟨rfl, rfl, rfl⟩⟩

lemma linked_step (hs : s.Linked) (h : Step s t) : t.Linked := by
  cases h with
  | @stdin r c given hlen h =>
    obtain ⟨rfl, rfl⟩ := hs.empty.stdinCb hlen h
    rw [if_pos hs.connected]
    refine { hs with accepted := fun fd hfd => ?_, waiting := fun hnone => ?_ }
    · obtain ⟨hopen, htyped, hprinted⟩ := hs.accepted fd hfd
      exact ⟨hopen, by rw [← List.append_assoc, htyped], hprinted⟩
    · obtain ⟨htyped, hprinted⟩ := hs.waiting hnone
      exact ⟨by rw [htyped], hprinted⟩
  | @conn r c given hc hlen hbytes herror heof h =>
    have hopen : r ≠ .data [] := by
      intro hr
      obtain ⟨-, fd, hfd, hclosed⟩ := heof hr
      exact hclosed (hs.accepted fd hfd).1
    obtain ⟨rfl, rfl⟩ := hs.empty.connCb hlen hopen herror h
    obtain ⟨rest, hrest⟩ := hbytes
    have hdrop : s.toClient.drop r.bytes.length = rest := by rw [← hrest, List.drop_left]
    rw [hdrop]
    refine { hs with accepted := fun fd hfd => ?_, waiting := fun hnone => ?_ }
    · obtain ⟨hmem, htyped, hprinted⟩ := hs.accepted fd hfd
      exact ⟨hmem, htyped, by rw [← hprinted, ← hrest, List.append_assoc]⟩
    · obtain ⟨htyped, hprinted, hnil⟩ := hs.waiting hnone
      rw [hnil, List.append_eq_nil_iff] at hrest
      exact ⟨htyped, by rw [hprinted, hrest.1]; rfl, hrest.2⟩
  | @accept c fd u hnone herr hfd hst =>
    obtain ⟨hnew, hmem, hlog⟩ := hst.of_accept herr hfd
    obtain ⟨hreceived, hsent⟩ := hs.intact.fresh fd hnew
    obtain ⟨htyped, hprinted, hnil⟩ := hs.waiting hnone
    have hcongr := log_congr hlog fd
    refine { hs with
      inv := hst.inv hs.inv, intact := hst.intact hs.inv hs.intact trivial,
      even := hst.even hs.inv hs.intact hs.even trivial,
      accepted := fun fd' hfd' => ?_, waiting := by simp }
    obtain rfl := Option.some.inj hfd'
    refine ⟨hmem, ?_, ?_⟩
    · rw [hcongr.1, hreceived, htyped]
      rfl
    · rw [hcongr.2, hsent, hprinted, hnil]
      rfl
  | @serve i u toServer toClient hst hwhole h =>
    refine { hs with
      inv := hst.inv hs.inv, intact := hst.intact hs.inv hs.intact hs.even.unbroken,
      even := hst.even hs.inv hs.intact hs.even hwhole,
      accepted := fun fd hfd => ?_, waiting := fun hnone => ?_ }
    · obtain ⟨hmem, htyped, hprinted⟩ := hs.accepted fd hfd
      obtain ⟨bytes, hsent, hclient⟩ := h.written fd hfd
      refine ⟨hst.sockets_subset hmem, ?_, ?_⟩
      · rw [h.read fd hfd, htyped]
      · rw [hclient, hsent, ← hprinted, List.append_assoc]
    · obtain ⟨hserver, hclient⟩ := h.waiting hnone
      rw [hserver, hclient]
      exact hs.waiting hnone

/-- What is printed, on its way back, in the buffer of the server and on its way to it is what was
typed, in this order.  Neither side has closed the connection, whether or not the input is at its
end. -/
theorem echoed_in_order (h : Reachable (· = start) Step s) :
    (∃ rest, (∀ fd, s.fd = some fd → Buffered s.server fd rest) ∧ (s.fd = none → rest = []) ∧
      rest.length ≤ bufferSize ∧ s.printed ++ s.toClient ++ rest ++ s.toServer = s.typed) ∧
      s.client.connected = true ∧ ∀ fd, s.fd = some fd → fd ∈ s.server.sockets := by
  have hlinked : s.Linked := h.invariant
    (fun s₀ h₀ => by
      subst h₀
      exact linked_start)
    fun _ _ _ hs hst => linked_step hs hst
  refine ⟨?_, hlinked.connected, fun fd hfd => (hlinked.accepted fd hfd).1⟩
  cases hfd : s.fd with
  | none =>
    obtain ⟨htyped, hprinted, hnil⟩ := hlinked.waiting hfd
    exact ⟨[], by simp, fun _ => rfl, Nat.zero_le _, by rw [htyped, hprinted, hnil]; rfl⟩
  | some fd =>
    obtain ⟨-, htyped, hprinted⟩ := hlinked.accepted fd hfd
    obtain ⟨rest, hbuffered, hle, hrest⟩ := hlinked.even.rest hlinked.inv hlinked.intact fd
    refine ⟨rest, fun fd' hfd' => ?_, by simp, hle, by rw [hprinted, ← hrest, htyped]⟩
    obtain rfl := Option.some.inj hfd'
    exact hbuffered

/-- Two bytes are typed and come back, and then the input ends. -/
theorem echoed_in_order_sample : ∃ s : Session, s.typed = [104, 105] ∧ s.printed = [104, 105] ∧
    s.client.connected = true := by
  obtain ⟨s₁, h₁, hs₁, -, -, hlog₁⟩ := exists_connect 5 (by decide)
  obtain ⟨s₂, h₂, hs₂, -, -, hlog₂⟩ := hs₁.exists_message List.length_replicate
    [104, 105] (by decide) (by decide)
  obtain ⟨s₃, h₃, -, -, -, hlog₃⟩ := hs₂.exists_answer (by decide)
    (by rw [List.length_append]; exact Nat.le_add_right _ _) 2
  rw [hlog₁, List.nil_append] at hlog₂
  have hlog : s₃.log = [.recv 5 [104, 105], .send 5 [104, 105]] := by
    rw [hlog₃, hlog₂]
    rfl
  have hempty : Client.start.Empty := ⟨rfl, rfl⟩
  -- the server reads the two bytes, and writes them
  have hread : Step ⟨s₁, some 5, .start, [104, 105], [], [104, 105], []⟩
      ⟨s₂, some 5, .start, [], [], [104, 105], []⟩ := by
    refine .serve h₂ (fun x b hx hb => ?_) ⟨?_, ?_, by simp, ?_⟩
    · obtain rfl := Option.some.inj (hs₁.watcher.symm.trans hx)
      obtain rfl := Option.some.inj (hs₁.buf.symm.trans hb)
      decide
    · simp [State.received, hlog₁, hlog₂, Event.received]
    · simp [State.sent, hlog₁, hlog₂, Event.sent]
    · rintro c x hc - - - hr
      cases hc
      cases hr
  have hwrite : Step ⟨s₂, some 5, .start, [], [], [104, 105], []⟩
      ⟨s₃, some 5, .start, [], [104, 105], [104, 105], []⟩ := by
    refine .serve h₃ (fun x b hx hb => ?_) ⟨?_, ?_, by simp, ?_⟩
    · obtain rfl := Option.some.inj (hs₂.watcher.symm.trans hx)
      obtain rfl := Option.some.inj (hs₂.buf.symm.trans hb)
      decide
    · simp [State.received, hlog, hlog₂, Event.received]
    · simp [State.sent, hlog, hlog₂, Event.sent]
    · rintro c x hc - - - hr
      cases hc
      cases hr
  have h : Reachable (· = start) Step start := .of_init rfl
  have h := h.tail (.accept rfl rfl rfl h₁)
  have h := h.tail (@Step.stdin _ (.data [104, 105]) .start [104, 105] (by decide)
    (hempty.passOn_eq (by decide)))
  have h := (h.tail hread).tail hwrite
  have h := h.tail (@Step.conn _ (.data [104, 105]) .start [104, 105] rfl (by decide)
    List.prefix_rfl (by simp) (by simp) (hempty.passOn_eq (by decide)))
  have h := h.tail (@Step.stdin _ (.data []) .start [] (by decide) (hempty.passOn_eq (by decide)))
  exact ⟨_, rfl, rfl, (echoed_in_order h).2.1⟩

end Session

end CppExample.Libev
