/-
# The c1000k server

The main loop of `network/demo4_c1000k_server.cpp`, over the reactor of `Reactor.lean`.  The
kernel hands out batches of events, and answers the calls of `accept`, `recv` and `send`
that the server makes while it handles an event.  The interest set of the epoll instance
and the open connections are part of the state; so is, for every connection, the list of
the successful calls of `recv` and of the calls of `send` since it was accepted.

What the server prints is left out.
-/
import CppExample.C1000k.Reactor
import CppExample.Lib.Run
import Mathlib.Data.Finset.Insert
import Mathlib.Data.Finset.Erase

namespace CppExample.C1000k
open Lib

namespace World

/-- Write, or free, a buffer. -/
def setBuffer (w : World) (a : Addr) (bytes : Option (List UInt8)) : World :=
  { w with heap := { w.heap with buffers := Function.update w.heap.buffers a bytes } }

/-- A call of `calloc` for a buffer. -/
def calloc (ok : ℕ → Bool) (w : World) (n : ℕ) : Option Addr × World :=
  match w.malloc ok with
  | (none, w) => (none, w)
  | (some a, w) => (some a, w.setBuffer a (some (List.replicate n 0)))

/-- Store bytes at the beginning of a buffer. -/
def storeBuffer (w : World) (p : Option Addr) (bytes : List UInt8) : Except Fault World := do
  let buf ← deref w.heap.buffers p
  let buf ← store buf 0 bytes
  match p with
  | some a => return w.setBuffer a (some buf)
  | none => .error .pointer

/-- The first `n` bytes of a buffer. -/
def loadBuffer (w : World) (p : Option Addr) (n : ℕ) : Except Fault (List UInt8) := do
  let buf ← deref w.heap.buffers p
  slice buf 0 n

/-- `free`; nothing happens for a null pointer. -/
def free (w : World) (p : Option Addr) : Except Fault World :=
  match p with
  | none => .ok w
  | some a => do
    let _ ← deref w.heap.buffers (some a)
    return w.setBuffer a none

end World

/-- What a descriptor is registered for. -/
inductive Interest where
  | epollin
  | epollout
deriving DecidableEq, Repr

/-- An entry of `events`: `data.fd`, and the two flags that the server looks at. -/
structure Event where
  fd : ℤ
  epollin : Bool
  epollout : Bool
deriving DecidableEq, Repr

/-- What `recv` returns. -/
inductive RecvResult where
  /-- `n > 0`, with the bytes received. -/
  | data (bytes : List UInt8)
  /-- 0. -/
  | eof
  /-- Less than 0. -/
  | error
deriving DecidableEq, Repr

/-- The answers of the kernel while one event is handled. -/
structure Reply where
  /-- What `accept` returns; `none` for -1. -/
  accept : Option ℤ
  recv : RecvResult
  /-- What `send` returns. -/
  send : ℤ
deriving DecidableEq, Repr

/-- A call on a connection. -/
inductive Act where
  /-- `recv` returned these bytes. -/
  | recv (bytes : List UInt8)
  /-- `send` was called with the first bytes, and transferred the second ones. -/
  | send (given transferred : List UInt8)
deriving DecidableEq, Repr

/-- The server, with what the kernel knows of it. -/
structure State where
  world : World
  /-- The accepted connections that have not been closed. -/
  conns : Finset ℤ
  /-- The interest set of `epoll_fd`. -/
  interest : ℤ → Option Interest
  /-- The events of the current batch that are still to be handled; none when the server is
  at `epoll_wait`. -/
  batch : List Event
  /-- The calls on a connection since it was accepted. -/
  log : ℤ → List Act

/-- `EPOLL_CTL_MOD`.  What a descriptor is registered for is a parameter. -/
def epollMod {I : Type} (interest : ℤ → Option I) (fd : ℤ) (i : I) : ℤ → Option I :=
  if (interest fd).isSome then Function.update interest fd (some i) else interest

lemma epollMod_of_ne {I : Type} {interest : ℤ → Option I} {fd c : ℤ} (i : I) (hne : c ≠ fd) :
    epollMod interest fd i c = interest c := by
  rw [epollMod]
  split
  · exact Function.update_of_ne hne _ _
  · rfl

variable (ok : ℕ → Bool) (sockfds : Finset ℤ)

/-- The server before its loop.  `sockfds` has the results of `init_server`, which are
negative for a port that could not be opened; `epoll_ctl` does not register these. -/
def State.start : State where
  world := World.zero
  conns := ∅
  interest fd := if fd ∈ sockfds ∧ 0 ≤ fd then some .epollin else none
  batch := []
  log _ := []

/-- `reactor_lookup`, and the access to the item that it returns. -/
def lookupItem (fuel : ℕ) (w : World) (fd : ℤ) : Except Fault (ItemPtr × World) := do
  let (p, w) ← reactorLookup ok fuel w fd
  match p with
  | some p => return (p, w)
  | none => .error .pointer

/-- A new connection. -/
def handleAccept (fuel : ℕ) (s : State) (clientfd : ℤ) : Except Fault State := do
  let (p, w) ← lookupItem ok fuel s.world clientfd
  let (rbuf, w) := w.calloc ok bufferLength
  let (wbuf, w) := w.calloc ok bufferLength
  let w ← w.writeItem p ⟨clientfd, rbuf, 0, wbuf, 0⟩
  return { s with
    world := w
    conns := insert clientfd s.conns
    interest := Function.update s.interest clientfd (some .epollin)
    log := Function.update s.log clientfd [] }

/-- A connection is readable. -/
def handleRead (fuel : ℕ) (s : State) (eventfd : ℤ) (r : RecvResult) : Except Fault State := do
  let (p, w) ← lookupItem ok fuel s.world eventfd
  let item ← w.readItem p
  match r with
  | .data bytes => do
    let w ← w.storeBuffer item.rbuf bytes
    let copy ← w.loadBuffer item.rbuf bufferLength
    let w ← w.storeBuffer item.wbuf copy
    return { s with
      world := w
      interest := epollMod s.interest eventfd .epollout
      log := Function.update s.log eventfd (s.log eventfd ++ [.recv bytes]) }
  | .eof => do
    let w ← w.free item.rbuf
    let w ← w.free item.wbuf
    let w ← w.writeItem p { item with fd := 0 }
    return { s with
      world := w
      conns := s.conns.erase eventfd
      interest := Function.update s.interest eventfd none }
  | .error => return { s with world := w }

/-- A connection is writable. -/
def handleWrite (fuel : ℕ) (s : State) (eventfd sent : ℤ) : Except Fault State := do
  let (p, w) ← lookupItem ok fuel s.world eventfd
  let item ← w.readItem p
  let given ← w.loadBuffer item.wbuf bufferLength
  return { s with
    world := w
    interest := epollMod s.interest eventfd .epollin
    log := Function.update s.log eventfd
      (s.log eventfd ++ [.send given (given.take sent.toNat)]) }

/-- The body of the inner loop.  When `accept` fails, the rest of the batch is abandoned. -/
def handle (fuel : ℕ) (s : State) (e : Event) (r : Reply) : Except Fault State :=
  if e.fd ∈ sockfds then
    match r.accept with
    | none => .ok { s with batch := [] }
    | some clientfd => handleAccept ok fuel s clientfd
  else if e.epollin then handleRead ok fuel s e.fd r.recv
  else if e.epollout then handleWrite ok fuel s e.fd r.send
  else .ok s

/-- Handling the event leads to `t`, with every budget that is large enough. -/
def Handles (s : State) (e : Event) (r : Reply) (t : State) : Prop :=
  ∃ n, ∀ fuel, n ≤ fuel → handle ok sockfds fuel s e r = .ok t

/-- What the kernel may answer: a new descriptor is positive and not open, and `recv` fills
at most the buffer. -/
structure Reply.Ok (s : State) (r : Reply) : Prop where
  accept : ∀ c, r.accept = some c → 0 < c ∧ c ∉ sockfds ∧ c ∉ s.conns
  recv : ∀ bytes, r.recv = .data bytes → bytes ≠ [] ∧ bytes.length ≤ bufferLength

/-- What `epoll_wait` may report: registered descriptors, each at most once, with `EPOLLIN`
or `EPOLLOUT` only when that is what it is registered for. -/
structure Reportable (s : State) (events : List Event) : Prop where
  registered : ∀ e ∈ events, (s.interest e.fd).isSome
  epollin : ∀ e ∈ events, e.epollin = true → s.interest e.fd = some .epollin
  epollout : ∀ e ∈ events, e.epollout = true → s.interest e.fd = some .epollout
  nodup : (events.map Event.fd).Nodup
  length : events.length ≤ 128

/-- A step of the server. -/
inductive Step (s : State) : State → Prop
  /-- `epoll_wait` returns a batch of events; an empty one when it fails. -/
  | wait (events : List Event) (hb : s.batch = []) (hev : Reportable s events) :
      Step s { s with batch := events }
  /-- The next event is handled. -/
  | handle {t : State} {e : Event} {rest : List Event} (r : Reply) (hb : s.batch = e :: rest)
      (hr : r.Ok sockfds s) (ht : Handles ok sockfds { s with batch := rest } e r t) : Step s t

/-- The states of the server in all runs. -/
def Reach (s : State) : Prop := Reachable (fun s => s = State.start sockfds) (Step ok sockfds) s

end CppExample.C1000k
