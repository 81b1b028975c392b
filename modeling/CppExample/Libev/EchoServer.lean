/-
# The libev echo server

The callbacks of `libev/demo1_echo_server.cpp`: `accept_cb` for the listening socket, and
`io_cb` for a client.  Every client has a watcher, whose `data` is an `io_buf`, whose `data` is
an array of `BUFFER_SIZE` bytes; all three are allocated with `malloc`, which succeeds.

A run is a sequence of callbacks.  A callback comes with the flags that it is called with and
with the results of the calls that it makes.  What libev guarantees is in `Input.Ok`: only
watchers that are started are called back, and only for the events that they are registered
for.  A callback with `EV_ERROR` comes after libev has stopped the watcher.

The log has what was read from and written to each socket; it is not in the program.  What
`printf` prints is left out, and so is what it reads: its `%s` reads behind an array that was filled
to its last byte, which then has no NUL.
-/
import CppExample.Lib.Heap
import CppExample.Lib.Run

namespace CppExample.Libev
open Lib

/-- `BUFFER_SIZE`. -/
def bufferSize : ℕ := 1024

/-- The events that a watcher is registered for. -/
inductive Interest where
  | evRead
  | evWrite
deriving DecidableEq, Repr

/-- The flags that a callback is called with. -/
structure Revents where
  evError : Bool
  evRead : Bool
  evWrite : Bool
deriving DecidableEq, Repr

/-- `struct io_buf`. -/
structure IoBuf where
  /-- The address of the array. -/
  data : ℕ
  len : ℕ
deriving DecidableEq, Repr

/-- `struct ev_io` of a client. -/
structure EvIo where
  fd : ℤ
  events : Interest
  /-- The address of the `io_buf`. -/
  data : ℕ
deriving DecidableEq, Repr

/-- An entry of the log. -/
inductive Event where
  /-- `read` has returned these bytes. -/
  | recv (fd : ℤ) (bytes : List UInt8)
  /-- `write` has accepted these bytes. -/
  | send (fd : ℤ) (bytes : List UInt8)
deriving DecidableEq, Repr

/-- The server and its memory. -/
structure State where
  /-- The watcher of the listening socket is started. -/
  accepting : Bool
  /-- The watchers that are allocated and not initialised. -/
  blank : Finset ℕ
  /-- The watchers that are initialised. -/
  watchers : ℕ → Option EvIo
  /-- The objects of type `io_buf`. -/
  bufs : ℕ → Option IoBuf
  /-- The arrays. -/
  arrays : ℕ → Option (List UInt8)
  /-- The watchers of clients that are started. -/
  started : Finset ℕ
  /-- The sockets of clients that are open. -/
  sockets : Finset ℤ
  /-- `total_clients`. -/
  totalClients : ℤ
  log : List Event

/-- The server when its loop begins. -/
def State.start : State where
  accepting := true
  blank := ∅
  watchers := fun _ => none
  bufs := fun _ => none
  arrays := fun _ => none
  started := ∅
  sockets := ∅
  totalClients := 0
  log := []

/-- A call of `accept_cb`. -/
structure AcceptCall where
  revents : Revents
  /-- The results of the three calls of `malloc`. -/
  ioWatcher : ℕ
  buf : ℕ
  data : ℕ
  /-- The result of `accept`; `none` is -1. -/
  accept : Option ℤ
  /-- `set_nonblocking` succeeds. -/
  nonblocking : Bool
deriving DecidableEq, Repr

/-- A call of `io_cb`. -/
structure IoCall where
  watcher : ℕ
  revents : Revents
  /-- The result of `read`; `none` is -1. -/
  read : Option (List UInt8)
  /-- The result of `write`; `none` is -1. -/
  write : Option ℕ
deriving DecidableEq, Repr

namespace State

/-- The end of `accept_cb`: the client is counted, and gets a buffer and a watcher. -/
def register (s : State) (c : AcceptCall) (clientfd : ℤ) : State :=
  { s with
    totalClients := s.totalClients + 1
    bufs := Function.update s.bufs c.buf (some ⟨c.data, 0⟩)
    arrays := Function.update s.arrays c.data (some (List.replicate bufferSize 0))
    blank := s.blank.erase c.ioWatcher
    watchers := Function.update s.watchers c.ioWatcher (some ⟨clientfd, .evRead, c.buf⟩)
    started := insert c.ioWatcher s.started }

/-- `accept_cb`. -/
def acceptCb (s : State) (c : AcceptCall) : State :=
  -- the watcher is allocated first
  let s := { s with blank := insert c.ioWatcher s.blank }
  if c.revents.evError then s
  else
    match c.accept with
    | none => s
    | some clientfd =>
      let s := { s with sockets := insert clientfd s.sockets }
      if c.nonblocking then s.register c clientfd else s

/-- `ev_io_stop`, `ev_io_set` and `ev_io_start`. -/
def watch (s : State) (w : ℕ) (watcher : EvIo) (events : Interest) : State :=
  { s with
    watchers := Function.update s.watchers w (some { watcher with events := events })
    started := insert w (s.started.erase w) }

/-- `io_cb` at the end of file: the watcher is stopped, and everything is freed. -/
def release (s : State) (w : ℕ) (watcher : EvIo) (buf : IoBuf) : State :=
  { s with
    started := s.started.erase w
    arrays := Function.update s.arrays buf.data none
    bufs := Function.update s.bufs watcher.data none
    watchers := Function.update s.watchers w none
    totalClients := s.totalClients - 1 }

/-- The contents of the buffer of a client. -/
def setBuf (s : State) (a : ℕ) (buf : IoBuf) (bytes : List UInt8) (len : ℕ) : State :=
  { s with
    bufs := Function.update s.bufs a (some { buf with len := len })
    arrays := Function.update s.arrays buf.data (some bytes) }

/-- `io_cb` for `EV_READ`. -/
def onRead (s : State) (c : IoCall) (watcher : EvIo) (buf : IoBuf) : Except Fault State :=
  match c.read with
  | none => .ok s
  | some [] => .ok (s.release c.watcher watcher buf)
  | some bytes => do
    let data ← deref s.arrays (some buf.data)
    let data ← store data 0 bytes
    let s := s.setBuf watcher.data buf data bytes.length
    let s := { s with log := s.log ++ [Event.recv watcher.fd bytes] }
    return s.watch c.watcher watcher .evWrite

/-- `io_cb` for `EV_WRITE`.  The result of `write` is not looked at. -/
def onWrite (s : State) (c : IoCall) (watcher : EvIo) (buf : IoBuf) : Except Fault State := do
  let s ←
    if 0 < buf.len then do
      let data ← deref s.arrays (some buf.data)
      let bytes ← slice data 0 buf.len
      let s := { s with log := s.log ++ [Event.send watcher.fd (bytes.take (c.write.getD 0))] }
      pure (s.setBuf watcher.data buf (List.replicate bufferSize 0) 0)
    else pure s
  return s.watch c.watcher watcher .evRead

/-- `io_cb`. -/
def ioCb (s : State) (c : IoCall) : Except Fault State :=
  if c.revents.evError then .ok s
  else do
    let watcher ← deref s.watchers (some c.watcher)
    let buf ← deref s.bufs (some watcher.data)
    if c.revents.evRead then s.onRead c watcher buf
    else if c.revents.evWrite then s.onWrite c watcher buf
    else .ok s

end State

/-- A callback, with what it is called with and the results that it gets. -/
inductive Input where
  | acceptCb (c : AcceptCall)
  | ioCb (c : IoCall)
deriving DecidableEq, Repr

namespace Input

/-- What libev, `malloc` and the kernel guarantee. -/
def Ok (s : State) : Input → Prop
  | acceptCb c =>
    s.accepting = true ∧ (c.ioWatcher ∉ s.blank ∧ s.watchers c.ioWatcher = none) ∧
      s.bufs c.buf = none ∧ s.arrays c.data = none ∧
      ∀ fd, c.accept = some fd → 0 ≤ fd ∧ fd ∉ s.sockets
  | ioCb c =>
    c.watcher ∈ s.started ∧ (∀ bytes, c.read = some bytes → bytes.length ≤ bufferSize) ∧
      ∀ x, s.watchers c.watcher = some x → c.revents.evError = false →
        (c.revents.evRead = true → x.events = .evRead) ∧
          (c.revents.evWrite = true → x.events = .evWrite)

/-- A watcher that is called back with `EV_ERROR` was stopped before. -/
def handle (s : State) : Input → Except Fault State
  | acceptCb c =>
    .ok (State.acceptCb (if c.revents.evError then { s with accepting := false } else s) c)
  | ioCb c =>
    State.ioCb
      (if c.revents.evError then { s with started := s.started.erase c.watcher } else s) c

end Input

/-- A callback of the server. -/
def Step (i : Input) (s t : State) : Prop := i.Ok s ∧ i.handle s = .ok t

/-! ## What a callback can do -/

/-- What a callback does to the state. -/
inductive Outcome (s : State) : Input → State → Prop
  /-- `accept_cb` returns without a client. -/
  | refuse {c : AcceptCall} {accepting : Bool}
      (h : c.revents.evError = true ∨ c.revents.evError = false ∧ c.accept = none) :
      Outcome s (.acceptCb c)
        { s with accepting := accepting, blank := insert c.ioWatcher s.blank }
  /-- `accept_cb` returns with a client that it does not register. -/
  | abandon {c : AcceptCall} {fd : ℤ} (h : c.revents.evError = false) (hfd : c.accept = some fd)
      (hnew : fd ∉ s.sockets) (hb : c.nonblocking = false) :
      Outcome s (.acceptCb c)
        { s with blank := insert c.ioWatcher s.blank, sockets := insert fd s.sockets }
  /-- `accept_cb` registers a client. -/
  | register {c : AcceptCall} {fd : ℤ} (h : c.revents.evError = false) (hfd : c.accept = some fd)
      (hnew : fd ∉ s.sockets) (hb : c.nonblocking = true) :
      Outcome s (.acceptCb c)
        (State.register
          { s with blank := insert c.ioWatcher s.blank, sockets := insert fd s.sockets } c fd)
  /-- `io_cb` with `EV_ERROR`. -/
  | error {c : IoCall} (h : c.revents.evError = true) :
      Outcome s (.ioCb c) { s with started := s.started.erase c.watcher }
  /-- `io_cb` when `read` fails, or without an event. -/
  | quiet {c : IoCall} (h : c.revents.evError = false)
      (hr : c.revents.evRead = true ∧ c.read = none ∨
        c.revents.evRead = false ∧ c.revents.evWrite = false) : Outcome s (.ioCb c) s
  /-- `io_cb` at the end of file. -/
  | release {c : IoCall} {x : EvIo} {b : IoBuf} (h : c.revents.evError = false)
      (hr : c.revents.evRead = true) (hread : c.read = some [])
      (hx : s.watchers c.watcher = some x) (hbuf : s.bufs x.data = some b) :
      Outcome s (.ioCb c) (s.release c.watcher x b)
  /-- `io_cb` has read something. -/
  | recv {c : IoCall} {x : EvIo} {b : IoBuf} {bytes array : List UInt8}
      (h : c.revents.evError = false) (hr : c.revents.evRead = true)
      (hread : c.read = some bytes) (hne : bytes ≠ [])
      (hx : s.watchers c.watcher = some x) (hbuf : s.bufs x.data = some b)
      (harray : s.arrays b.data = some array) (hlen : bytes.length ≤ array.length)
      (hreg : x.events = .evRead) :
      Outcome s (.ioCb c) (State.watch
        { s.setBuf x.data b (bytes ++ array.drop bytes.length) bytes.length with
          log := s.log ++ [.recv x.fd bytes] } c.watcher x .evWrite)
  /-- `io_cb` has written something, or tried to. -/
  | send {c : IoCall} {x : EvIo} {b : IoBuf} {array : List UInt8}
      (h : c.revents.evError = false) (hr : c.revents.evRead = false)
      (hw : c.revents.evWrite = true) (hx : s.watchers c.watcher = some x)
      (hbuf : s.bufs x.data = some b) (hpos : 0 < b.len)
      (harray : s.arrays b.data = some array) (hlen : b.len ≤ array.length) :
      Outcome s (.ioCb c) (State.watch
        (State.setBuf
          { s with log := s.log ++ [.send x.fd ((array.take b.len).take (c.write.getD 0))] }
          x.data b (List.replicate bufferSize 0) 0) c.watcher x .evRead)
  /-- `io_cb` has nothing to write. -/
  | idle {c : IoCall} {x : EvIo} {b : IoBuf} (h : c.revents.evError = false)
      (hr : c.revents.evRead = false) (hx : s.watchers c.watcher = some x)
      (hbuf : s.bufs x.data = some b) (hpos : b.len = 0) :
      Outcome s (.ioCb c) (s.watch c.watcher x .evRead)

lemma onRead_outcome {s t : State} {c : IoCall} {x : EvIo} {b : IoBuf}
    (h : c.revents.evError = false) (hr : c.revents.evRead = true)
    (hx : s.watchers c.watcher = some x) (hbuf : s.bufs x.data = some b)
    (hreg : x.events = .evRead) (hst : s.onRead c x b = .ok t) : Outcome s (.ioCb c) t := by
  rw [State.onRead] at hst
  split at hst
  · next hread =>
    obtain rfl := Except.ok.inj hst
    exact .quiet h (Or.inl ⟨hr, hread⟩)
  · next hread =>
    obtain rfl := Except.ok.inj hst
    exact .release h hr hread hx hbuf
  · next bytes hne hread =>
    rw [bind_eq_ok] at hst
    obtain ⟨array, harray, hst⟩ := hst
    rw [bind_eq_ok] at hst
    obtain ⟨data, hdata, hst⟩ := hst
    obtain ⟨a, ha, harray⟩ := deref_eq_ok.1 harray
    obtain rfl := Option.some.inj ha
    rw [store] at hdata
    split at hdata
    · next hle =>
      rw [Nat.zero_add] at hle
      rw [Nat.zero_add, List.take_zero, List.nil_append] at hdata
      obtain rfl := Except.ok.inj hdata
      obtain rfl := Except.ok.inj hst
      exact .recv h hr hread (fun h0 => hne h0) hx hbuf harray hle hreg
    · cases hdata

lemma onWrite_outcome {s t : State} {c : IoCall} {x : EvIo} {b : IoBuf}
    (h : c.revents.evError = false) (hr : c.revents.evRead = false)
    (hw : c.revents.evWrite = true) (hx : s.watchers c.watcher = some x)
    (hbuf : s.bufs x.data = some b) (hst : s.onWrite c x b = .ok t) : Outcome s (.ioCb c) t := by
  rw [State.onWrite] at hst
  split at hst
  · next hpos =>
    simp only [bind_eq_ok] at hst
    obtain ⟨array, harray, bytes, hbytes, u, hu, hst⟩ := hst
    obtain ⟨a, ha, harray⟩ := deref_eq_ok.1 harray
    obtain rfl := Option.some.inj ha
    rw [slice] at hbytes
    split at hbytes
    · next hle =>
      rw [Nat.zero_add] at hle
      obtain rfl := Except.ok.inj hbytes
      obtain rfl := Except.ok.inj hu
      obtain rfl := Except.ok.inj hst
      exact .send h hr hw hx hbuf hpos harray hle
    · cases hbytes
  · next hpos =>
    obtain rfl := Except.ok.inj hst
    exact .idle h hr hx hbuf (by omega)

/-- Every callback has one of these outcomes. -/
lemma Step.outcome {i : Input} {s t : State} (hst : Step i s t) : Outcome s i t := by
  obtain ⟨hok, hst⟩ := hst
  cases i with
  | acceptCb c =>
    obtain ⟨-, -, -, -, hnew⟩ := hok
    obtain rfl := Except.ok.inj hst
    rw [State.acceptCb]
    cases h : c.revents.evError with
    | true => exact .refuse (Or.inl h)
    | false =>
      rw [if_neg Bool.false_ne_true, if_neg Bool.false_ne_true]
      cases hfd : c.accept with
      | none => exact .refuse (Or.inr ⟨h, hfd⟩)
      | some fd =>
        dsimp only
        cases hb : c.nonblocking with
        | false => exact .abandon h hfd (hnew fd hfd).2 hb
        | true => exact .register h hfd (hnew fd hfd).2 hb
  | ioCb c =>
    obtain ⟨-, -, hreg⟩ := hok
    rw [Input.handle, State.ioCb] at hst
    cases h : c.revents.evError with
    | true =>
      rw [h, if_pos rfl, if_pos rfl] at hst
      obtain rfl := Except.ok.inj hst
      exact .error h
    | false =>
      rw [h, if_neg Bool.false_ne_true, if_neg Bool.false_ne_true] at hst
      simp only [bind_eq_ok] at hst
      obtain ⟨x, hx, b, hb, hst⟩ := hst
      obtain ⟨w, hw, hx⟩ := deref_eq_ok.1 hx
      obtain rfl := Option.some.inj hw
      obtain ⟨a, ha, hb⟩ := deref_eq_ok.1 hb
      obtain rfl := Option.some.inj ha
      cases hr : c.revents.evRead with
      | true =>
        rw [hr, if_pos rfl] at hst
        exact onRead_outcome h hr hx hb ((hreg x hx h).1 hr) hst
      | false =>
        rw [hr, if_neg Bool.false_ne_true] at hst
        split at hst
        · next hw => exact onWrite_outcome h hr hw hx hb hst
        · next hw =>
          obtain rfl := Except.ok.inj hst
          exact .quiet h (Or.inr ⟨hr, Bool.eq_false_of_not_eq_true hw⟩)

/-! ## The memory -/

/-- The objects of the clients.  Watchers that were stopped and not freed are among them. -/
structure Inv (s : State) : Prop where
  started : ∀ w ∈ s.started, ∃ x, s.watchers w = some x
  /-- Every watcher has a buffer, and every buffer an array. -/
  bufs : ∀ w x, s.watchers w = some x → ∃ b, s.bufs x.data = some b
  arrays : ∀ a b, s.bufs a = some b →
    ∃ array, s.arrays b.data = some array ∧ array.length = bufferSize ∧ b.len ≤ bufferSize
  /-- The socket of a watcher is open. -/
  sockets : ∀ w x, s.watchers w = some x → x.fd ∈ s.sockets
  /-- No two watchers share a socket or a buffer, and no two buffers an array. -/
  fd_inj : KeyInj EvIo.fd s.watchers
  buf_inj : KeyInj EvIo.data s.watchers
  array_inj : KeyInj IoBuf.data s.bufs

lemma inv_start : Inv State.start := by
  constructor
  · exact fun w hw => absurd hw (Finset.notMem_empty w)
  · exact fun w x hx => by cases hx
  · exact fun a b hb => by cases hb
  · exact fun w x hx => by cases hx
  · exact fun a a' b b' h => by cases h
  · exact fun a a' b b' h => by cases h
  · exact fun a a' b b' h => by cases h

/-- A free address is not that of a buffer, nor of an array. -/
lemma Inv.data_ne {s : State} (hs : Inv s) {w a : ℕ} {x : EvIo} (hx : s.watchers w = some x)
    (ha : s.bufs a = none) : x.data ≠ a := by
  obtain ⟨b, hb⟩ := hs.bufs w x hx
  exact ne_of_free hb ha

lemma Inv.array_ne {s : State} (hs : Inv s) {a d : ℕ} {b : IoBuf} (hb : s.bufs a = some b)
    (hd : s.arrays d = none) : b.data ≠ d := by
  obtain ⟨array, harray, -⟩ := hs.arrays a b hb
  exact ne_of_free harray hd

/-- A watcher that is not allocated is not started. -/
lemma Inv.notMem_started {s : State} (hs : Inv s) {w : ℕ} (hw : s.watchers w = none) :
    w ∉ s.started := by
  intro hmem
  obtain ⟨x, hx⟩ := hs.started w hmem
  exact ne_of_free hx hw rfl

/-- A client is registered, with new objects and a new socket. -/
lemma Inv.register {s : State} (hs : Inv s) {c : AcceptCall} {fd : ℤ} (hfd : fd ∉ s.sockets)
    (hw : s.watchers c.ioWatcher = none) (hbuf : s.bufs c.buf = none)
    (harray : s.arrays c.data = none) {blank : Finset ℕ} :
    Inv (State.register { s with blank := blank, sockets := insert fd s.sockets } c fd) := by
  constructor
  · intro w hmem
    rcases Finset.mem_insert.1 hmem with rfl | hmem
    · exact ⟨_, Function.update_self _ _ _⟩
    · obtain ⟨x, hx⟩ := hs.started w hmem
      exact ⟨x, update_eq_some_of_ne (ne_of_free hx hw) hx⟩
  · intro w x hx
    rcases update_some_eq_some.1 hx with ⟨-, rfl⟩ | ⟨-, hx⟩
    · exact ⟨_, Function.update_self _ _ _⟩
    · obtain ⟨b, hb⟩ := hs.bufs w x hx
      exact ⟨b, update_eq_some_of_ne (ne_of_free hb hbuf) hb⟩
  · intro a b hb
    rcases update_some_eq_some.1 hb with ⟨-, rfl⟩ | ⟨-, hb⟩
    · exact ⟨_, Function.update_self _ _ _, List.length_replicate, Nat.zero_le _⟩
    · obtain ⟨array, ha, hlen⟩ := hs.arrays a b hb
      exact ⟨array, update_eq_some_of_ne (ne_of_free ha harray) ha, hlen⟩
  · intro w x hx
    rcases update_some_eq_some.1 hx with ⟨-, rfl⟩ | ⟨-, hx⟩
    · exact Finset.mem_insert_self _ _
    · exact Finset.mem_insert_of_mem (hs.sockets w x hx)
  · refine hs.fd_inj.insert fun w x hx heq => hfd ?_
    have hmem := hs.sockets w x hx
    rwa [heq] at hmem
  · exact hs.buf_inj.insert fun w x hx => hs.data_ne hx hbuf
  · exact hs.array_inj.insert fun a b hb => hs.array_ne hb harray

/-- Everything of a client is freed. -/
lemma Inv.release {s : State} (hs : Inv s) {w : ℕ} {x : EvIo} {b : IoBuf}
    (hx : s.watchers w = some x) (hb : s.bufs x.data = some b) : Inv (s.release w x b) := by
  constructor
  · intro w' hmem
    obtain ⟨hne, hmem⟩ := Finset.mem_erase.1 hmem
    obtain ⟨x', hx'⟩ := hs.started w' hmem
    exact ⟨x', update_eq_some_of_ne hne hx'⟩
  · intro w' x' hx'
    obtain ⟨hne, hx'⟩ := update_none_eq_some.1 hx'
    obtain ⟨b', hb'⟩ := hs.bufs w' x' hx'
    refine ⟨b', update_eq_some_of_ne ?_ hb'⟩
    exact fun heq => hne (hs.buf_inj w' w x' x hx' hx heq)
  · intro a b' hb'
    obtain ⟨hne, hb'⟩ := update_none_eq_some.1 hb'
    obtain ⟨array, ha, hlen⟩ := hs.arrays a b' hb'
    refine ⟨array, update_eq_some_of_ne ?_ ha, hlen⟩
    exact fun heq => hne (hs.array_inj a x.data b' b hb' hb heq)
  · exact fun w' x' hx' => hs.sockets w' x' (update_none_eq_some.1 hx').2
  · exact hs.fd_inj.erase w
  · exact hs.buf_inj.erase w
  · exact hs.array_inj.erase x.data

/-- The buffer of a client is filled or emptied. -/
lemma Inv.setBuf {s : State} (hs : Inv s) {a : ℕ} {b : IoBuf} (hb : s.bufs a = some b)
    {bytes : List UInt8} {len : ℕ} (hbytes : bytes.length = bufferSize) (hlen : len ≤ bufferSize)
    {log : List Event} : Inv { s.setBuf a b bytes len with log := log } := by
  constructor
  · exact hs.started
  · intro w x hx
    by_cases heq : x.data = a
    · subst heq
      exact ⟨_, Function.update_self _ _ _⟩
    · obtain ⟨b', hb'⟩ := hs.bufs w x hx
      exact ⟨b', update_eq_some_of_ne heq hb'⟩
  · intro a' b' hb'
    rcases update_some_eq_some.1 hb' with ⟨-, rfl⟩ | ⟨hne, hb'⟩
    · exact ⟨bytes, Function.update_self _ _ _, hbytes, hlen⟩
    · obtain ⟨array, ha, hlen'⟩ := hs.arrays a' b' hb'
      refine ⟨array, update_eq_some_of_ne ?_ ha, hlen'⟩
      exact fun heq => hne (hs.array_inj a' a b' b hb' hb heq)
  · exact hs.sockets
  · exact hs.fd_inj
  · exact hs.buf_inj
  · exact hs.array_inj.replace hb rfl

/-- A client waits for another event. -/
lemma Inv.watch {s : State} (hs : Inv s) {w : ℕ} {x : EvIo} (hx : s.watchers w = some x)
    (events : Interest) : Inv (s.watch w x events) := by
  constructor
  · intro w' hmem
    by_cases hne : w' = w
    · subst hne
      exact ⟨_, Function.update_self _ _ _⟩
    · obtain ⟨x', hx'⟩ := hs.started w'
        (Finset.mem_of_mem_erase (Finset.mem_of_mem_insert_of_ne hmem hne))
      exact ⟨x', update_eq_some_of_ne hne hx'⟩
  · intro w' x' hx'
    rcases update_some_eq_some.1 hx' with ⟨-, rfl⟩ | ⟨-, hx'⟩
    · exact hs.bufs w x hx
    · exact hs.bufs w' x' hx'
  · exact hs.arrays
  · intro w' x' hx'
    rcases update_some_eq_some.1 hx' with ⟨-, rfl⟩ | ⟨-, hx'⟩
    · exact hs.sockets w x hx
    · exact hs.sockets w' x' hx'
  · exact hs.fd_inj.replace hx rfl
  · exact hs.buf_inj.replace hx rfl
  · exact hs.array_inj

lemma Step.inv {i : Input} {s t : State} (hst : Step i s t) (hs : Inv s) : Inv t := by
  have hok := hst.1
  cases hst.outcome with
  | refuse | quiet => exact ⟨hs.started, hs.bufs, hs.arrays, hs.sockets, hs.fd_inj, hs.buf_inj,
      hs.array_inj⟩
  | abandon _ _ hnew =>
    exact ⟨hs.started, hs.bufs, hs.arrays,
      fun w x hx => Finset.mem_insert_of_mem (hs.sockets w x hx), hs.fd_inj, hs.buf_inj,
      hs.array_inj⟩
  | register _ _ hnew _ =>
    obtain ⟨-, ⟨-, hw⟩, hbuf, harray, -⟩ := hok
    exact hs.register hnew hw hbuf harray
  | error =>
    exact ⟨fun w hw => hs.started w (Finset.mem_of_mem_erase hw), hs.bufs, hs.arrays, hs.sockets,
      hs.fd_inj, hs.buf_inj, hs.array_inj⟩
  | release _ _ _ hx hb => exact hs.release hx hb
  | recv _ _ hread _ hx hb harray hlen _ =>
    obtain ⟨array, ha, hsize, -⟩ := hs.arrays _ _ hb
    obtain rfl := Option.some.inj (harray.symm.trans ha)
    refine Inv.watch (hs.setBuf hb ?_ (hok.2.1 _ hread)) hx _
    rw [List.length_append, List.length_drop]
    omega
  | send _ _ _ hx hb _ _ _ =>
    exact Inv.watch (hs.setBuf hb List.length_replicate (Nat.zero_le _)) hx _
  | idle _ _ hx _ _ => exact hs.watch hx _

/-- No callback faults; its `printf` is left out. -/
lemma Inv.exists_step {s : State} (hs : Inv s) {i : Input} (hok : i.Ok s) : ∃ t, Step i s t := by
  cases i with
  | acceptCb c => exact ⟨_, hok, rfl⟩
  | ioCb c =>
    obtain ⟨x, hx⟩ := hs.started _ hok.1
    obtain ⟨b, hb⟩ := hs.bufs _ x hx
    obtain ⟨array, ha, hsize, hlen⟩ := hs.arrays _ b hb
    suffices h : ∃ t, (Input.ioCb c).handle s = .ok t from h.imp fun t ht => ⟨hok, ht⟩
    rw [Input.handle, State.ioCb]
    split
    · exact ⟨_, rfl⟩
    · rw [deref_some hx, ok_bind, deref_some hb, ok_bind]
      split
      · rw [State.onRead]
        split
        · exact ⟨_, rfl⟩
        · exact ⟨_, rfl⟩
        · next bytes _ hread =>
          have hle : 0 + bytes.length ≤ array.length := by
            have := hok.2.1 bytes hread
            omega
          rw [deref_some ha, ok_bind, store_of_le hle]
          exact ⟨_, rfl⟩
      · split
        · rw [State.onWrite]
          split
          · rw [deref_some ha, ok_bind, slice, if_pos (by omega)]
            exact ⟨_, rfl⟩
          · exact ⟨_, rfl⟩
        · exact ⟨_, rfl⟩

/-! ## Exchanges -/

/-- Watcher `w` is started, with the buffer `b` and its array. -/
structure Serves (s : State) (w : ℕ) (x : EvIo) (b : IoBuf) (array : List UInt8) : Prop where
  started : w ∈ s.started
  watcher : s.watchers w = some x
  buf : s.bufs x.data = some b
  array : s.arrays b.data = some array

lemma Serves.handle {s : State} {c : IoCall} {x : EvIo} {b : IoBuf} {array : List UInt8}
    (h : Serves s c.watcher x b array) (herr : c.revents.evError = false) :
    (Input.ioCb c).handle s = if c.revents.evRead then s.onRead c x b
      else if c.revents.evWrite then s.onWrite c x b else .ok s := by
  rw [Input.handle, herr, if_neg Bool.false_ne_true, State.ioCb, herr, if_neg Bool.false_ne_true,
    deref_some h.watcher, ok_bind, deref_some h.buf, ok_bind]

/-- A client connects to a server without clients. -/
def connect (fd : ℤ) : Input := .acceptCb ⟨⟨false, true, false⟩, 0, 0, 0, some fd, true⟩

/-- `io_cb` reads the bytes. -/
def message (w : ℕ) (bytes : List UInt8) : Input :=
  .ioCb ⟨w, ⟨false, true, false⟩, some bytes, none⟩

/-- `io_cb` writes, and `n` bytes are accepted. -/
def answer (w n : ℕ) : Input := .ioCb ⟨w, ⟨false, false, true⟩, none, some n⟩

lemma exists_connect (fd : ℤ) (h : 0 ≤ fd) : ∃ s, Step (connect fd) State.start s ∧
    Serves s 0 ⟨fd, .evRead, 0⟩ ⟨0, 0⟩ (List.replicate bufferSize 0) ∧ s.totalClients = 1 ∧
      s.sockets = {fd} ∧ s.log = [] := by
  refine ⟨_, ⟨⟨rfl, ⟨?_, rfl⟩, rfl, rfl, ?_⟩, rfl⟩, ⟨?_, rfl, rfl, rfl⟩, rfl, rfl, rfl⟩
  · exact Finset.notMem_empty 0
  · rintro fd' hfd
    cases hfd
    exact ⟨h, Finset.notMem_empty fd⟩
  · exact Finset.mem_insert_self 0 _

lemma Serves.exists_message {s : State} {w a d len : ℕ} {fd : ℤ} {array : List UInt8}
    (h : Serves s w ⟨fd, .evRead, a⟩ ⟨d, len⟩ array) (hsize : array.length = bufferSize)
    (bytes : List UInt8) (hne : bytes ≠ []) (hlen : bytes.length ≤ bufferSize) :
    ∃ t, Step (message w bytes) s t ∧
      Serves t w ⟨fd, .evWrite, a⟩ ⟨d, bytes.length⟩ (bytes ++ array.drop bytes.length) ∧
      t.totalClients = s.totalClients ∧ t.sockets = s.sockets ∧
      t.log = s.log ++ [.recv fd bytes] := by
  have hok : (message w bytes).Ok s := by
    refine ⟨h.started, fun bytes' hb => ?_, fun x hx _ => ?_⟩
    · cases hb
      exact hlen
    · obtain rfl := Option.some.inj (hx.symm.trans h.watcher)
      exact ⟨fun _ => rfl, fun hw => by cases hw⟩
  have hstore : store array 0 bytes = .ok (bytes ++ array.drop bytes.length) := by
    rw [store_of_le (by omega), Nat.zero_add, List.take_zero, List.nil_append]
  refine ⟨State.watch { s.setBuf a ⟨d, len⟩ (bytes ++ array.drop bytes.length) bytes.length with
    log := s.log ++ [.recv fd bytes] } w ⟨fd, .evRead, a⟩ .evWrite, ⟨hok, ?_⟩, ⟨?_, ?_, ?_, ?_⟩,
    rfl, rfl, rfl⟩
  · obtain ⟨byte, rest, rfl⟩ := List.exists_cons_of_ne_nil hne
    refine (Serves.handle (c := ⟨w, _, _, _⟩) h rfl).trans ?_
    rw [if_pos rfl, State.onRead]
    dsimp only
    rw [deref_some h.array, ok_bind, hstore]
    rfl
  · exact Finset.mem_insert_self w _
  · exact Function.update_self w _ _
  · exact Function.update_self a _ _
  · exact Function.update_self d _ _

lemma Serves.exists_answer {s : State} {w a d len : ℕ} {fd : ℤ} {array : List UInt8}
    (h : Serves s w ⟨fd, .evWrite, a⟩ ⟨d, len⟩ array) (hpos : 0 < len) (hlen : len ≤ array.length)
    (n : ℕ) :
    ∃ t, Step (answer w n) s t ∧
      Serves t w ⟨fd, .evRead, a⟩ ⟨d, 0⟩ (List.replicate bufferSize 0) ∧
      t.totalClients = s.totalClients ∧ t.sockets = s.sockets ∧
      t.log = s.log ++ [.send fd ((array.take len).take n)] := by
  have hok : (answer w n).Ok s := by
    refine ⟨h.started, fun bytes hb => ?_, fun x hx _ => ?_⟩
    · cases hb
    · obtain rfl := Option.some.inj (hx.symm.trans h.watcher)
      exact ⟨fun hr => absurd hr Bool.false_ne_true, fun _ => rfl⟩
  refine ⟨State.watch (State.setBuf
    { s with log := s.log ++ [.send fd ((array.take len).take n)] } a ⟨d, len⟩
    (List.replicate bufferSize 0) 0) w ⟨fd, .evWrite, a⟩ .evRead, ⟨hok, ?_⟩, ⟨?_, ?_, ?_, ?_⟩,
    rfl, rfl, rfl⟩
  · refine (Serves.handle (c := ⟨w, _, _, _⟩) h rfl).trans ?_
    rw [if_neg Bool.false_ne_true, if_pos rfl, State.onWrite, if_pos hpos, deref_some h.array,
      ok_bind, slice, Nat.zero_add, if_pos hlen]
    rfl
  · exact Finset.mem_insert_self w _
  · exact Function.update_self w _ _
  · exact Function.update_self a _ _
  · exact Function.update_self d _ _

end CppExample.Libev
