/-
# The echo clients

`str_cli` of `network/echo/d3_select_echo_client.cpp`, `d4_poll_echo_client.cpp` and
`d5_epoll_echo_client.cpp`.  All three forward what is typed to the socket, and what comes from
the socket to the terminal.  At the end of the input the writing side of the socket is shut
down, and then the client goes on until the server closes its side.

They differ in how they wait for input, and in how they keep the end of the input from being
reported again: the one does not put `stdin` into its `fd_set` any more, the second makes its
`pollfd` negative, and the third takes it out of the epoll set.

`Writen` and the `write` to the terminal transfer everything.  The calls of `epoll_ctl` are not
in the log.
-/
import CppExample.Echo.PollServer

namespace CppExample.Echo.Client
open EpollServer (ReadResult)
open PollServer (PollFd pollrdnorm)

/-- The two descriptors of a client, `fileno (fp)` and `sockfd`. -/
structure Fds where
  stdin : ℤ
  sockfd : ℤ
  ne : stdin ≠ sockfd

/-- A call of a client, with its data; the result of `read` is `none` if it is not positive. -/
inductive Act where
  | readSocket (result : Option (List UInt8))
  | writeStdout (bytes : List UInt8)
  | readStdin (result : Option (List UInt8))
  /-- `Writen` to the socket. -/
  | writen (bytes : List UInt8)
  /-- `shutdown (sockfd, SHUT_WR)`. -/
  | shutdown
deriving DecidableEq, Repr

/-- What all versions keep, with the calls so far. -/
structure Io where
  stdineof : Bool
  log : List Act
deriving DecidableEq, Repr

def Io.start : Io := ⟨false, []⟩

/-- How a part of `str_cli` ends. -/
inductive Progress (S : Type) where
  | next (s : S)
  | returned (io : Io)
  /-- `err_quit ("str_cli: server terminated prematurely")`. -/
  | errQuit (io : Io)
  /-- With a descriptor that no `fd_set` can have. -/
  | outOfRange (io : Io)

/-- The part that follows. -/
def Progress.bind {S T : Type} : Progress S → (S → Progress T) → Progress T
  | next s, f => f s
  | returned io, _ => returned io
  | errQuit io, _ => errQuit io
  | outOfRange io, _ => outOfRange io

/-- The rounds of the loop. -/
def Progress.run {S I : Type} (round : S → I → Progress S) : List I → S → Progress S
  | [], s => next s
  | i :: rest, s => (round s i).bind (Progress.run round rest)

/-- The socket is readable. -/
def Io.onSocket (io : Io) (r : ReadResult) : Progress Io :=
  match r with
  | .closed =>
    let io := { io with log := io.log ++ [.readSocket none] }
    if io.stdineof then .returned io else .errQuit io
  | .data bytes =>
    .next { io with log := io.log ++ [.readSocket (some bytes), .writeStdout bytes] }

/-- The terminal is readable. -/
def Io.onStdin (io : Io) (r : ReadResult) : Io :=
  match r with
  | .closed => ⟨true, io.log ++ [.readStdin none, .shutdown]⟩
  | .data bytes => { io with log := io.log ++ [.readStdin (some bytes), .writen bytes] }

/-- The results of `read` in a round. -/
structure Replies where
  socket : ReadResult
  stdin : ReadResult

/-! ## The version with select -/

namespace SelectVersion

/-- The local variables of `str_cli`. -/
structure State extends Io where
  rset : Finset ℤ

def State.start : State := ⟨Io.start, ∅⟩

/-- A descriptor that an `fd_set` can have. -/
def InRange (fd : ℤ) : Prop := 0 ≤ fd ∧ fd < 1024

instance (fd : ℤ) : Decidable (InRange fd) := inferInstanceAs (Decidable (_ ∧ _))

/-- The set that is given to `select`. -/
def State.watched (fds : Fds) (s : State) : Finset ℤ :=
  insert fds.sockfd (if s.stdineof then s.rset else insert fds.stdin s.rset)

/-- A round, in which `select` leaves those descriptors in the set that are ready. -/
def round (fds : Fds) (s : State) (i : Finset ℤ × Replies) : Progress State :=
  if InRange fds.stdin ∧ InRange fds.sockfd then
    let rset := s.watched fds ∩ i.1
    let socket := if fds.sockfd ∈ rset then s.toIo.onSocket i.2.socket else .next s.toIo
    socket.bind fun io =>
      if fds.stdin ∈ rset then
        match i.2.stdin with
        | .closed => .next ⟨io.onStdin .closed, rset.erase fds.stdin⟩
        | .data bytes => .next ⟨io.onStdin (.data bytes), rset⟩
      else .next ⟨io, rset⟩
  else .outOfRange s.toIo

end SelectVersion

/-! ## The version with poll -/

namespace PollVersion

/-- The local variables of `str_cli`; `fds[0]` and `fds[1]` are `terminal` and `socket`. -/
structure State extends Io where
  terminal : PollFd
  socket : PollFd

/-- The state before the loop, with what was in the memory of the `revents`. -/
def State.start (fds : Fds) (garbage : UInt16 × UInt16) : State :=
  ⟨Io.start, ⟨fds.stdin, pollrdnorm, garbage.1⟩, ⟨fds.sockfd, pollrdnorm, garbage.2⟩⟩

/-- What `poll` writes for an entry. -/
def polled (e : PollFd) (revents : UInt16) : PollFd :=
  { e with revents := if e.fd < 0 then 0 else revents }

/-- A round, in which `poll` succeeds and reports these events. -/
def round (s : State) (i : (UInt16 × UInt16) × Replies) : Progress State :=
  let terminal := polled s.terminal i.1.1
  let socket := polled s.socket i.1.2
  (if socket.readable then s.toIo.onSocket i.2.socket else .next s.toIo).bind fun io =>
    if terminal.readable then
      match i.2.stdin with
      | .closed => .next ⟨io.onStdin .closed, { terminal with fd := -1 }, socket⟩
      | .data bytes => .next ⟨io.onStdin (.data bytes), terminal, socket⟩
    else .next ⟨io, terminal, socket⟩

end PollVersion

/-! ## The version with epoll -/

namespace EpollVersion

/-- The local variables of `str_cli`, and the epoll set. -/
structure State extends Io where
  interest : Finset ℤ

/-- Both descriptors are registered. -/
def State.start (fds : Fds) : State := ⟨Io.start, {fds.stdin, fds.sockfd}⟩

/-- An event, and the result of `read` when it is handled. -/
structure Event where
  fd : ℤ
  epollin : Bool
  result : ReadResult

/-- The events that are ready; no descriptor is reported twice. -/
structure Batch where
  events : List Event
  nodup : (events.map Event.fd).Nodup

/-- The body of the loop over the events. -/
def handle (fds : Fds) (s : State) (e : Event) : Progress State :=
  (if e.fd = fds.sockfd ∧ e.epollin then s.toIo.onSocket e.result else .next s.toIo).bind fun io =>
    if e.fd = fds.stdin ∧ e.epollin then
      match e.result with
      | .closed => .next ⟨io.onStdin .closed, s.interest.erase fds.stdin⟩
      | .data bytes => .next ⟨io.onStdin (.data bytes), s.interest⟩
    else .next ⟨io, s.interest⟩

/-- A round, in which `epoll_wait` reports the descriptors of the epoll set that are ready. -/
def round (fds : Fds) (s : State) (b : Batch) : Progress State :=
  Progress.run (handle fds) (b.events.filter fun e => e.fd ∈ s.interest) s

end EpollVersion

end CppExample.Echo.Client
