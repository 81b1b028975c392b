/-
# The select echo server

The main loop of `network/echo/d3_select_echo_server.cpp`.  The descriptors of the clients are
in the slots of `client`, and all the descriptors that are watched are in `allset`.  `select`
gets a copy of it, `rset`, and leaves the descriptors in it that are ready.

`memset` is given the number of slots for a number of bytes, so that only the first quarter of
the slots is initialised.  `FD_SET`, `FD_CLR` and `FD_ISSET` with a descriptor that an `fd_set`
cannot have leave the set; then the round ends `outOfRange`.
-/
import CppExample.Echo.PollServer

namespace CppExample.Echo.SelectServer
open Lib

/-- `BUFFER_LENGTH`. -/
def bufferLength : ℕ := 1024

/-- `FD_SETSIZE`. -/
def fdSetsize : ℕ := 1024

/-- The server, with what the kernel knows of it. -/
structure State where
  client : ℕ → ℤ
  maxidx : ℤ
  maxfd : ℤ
  allset : Finset ℤ
  /-- The accepted connections that have not been closed. -/
  conns : Finset ℤ
  calls : List Call

/-- `memset (client, -1, FD_SETSIZE)`, with four bytes for a slot. -/
def initClient (garbage : ℕ → ℤ) (i : ℕ) : ℤ := if 4 * (i + 1) ≤ fdSetsize then -1 else garbage i

variable (listenfd : ℤ)

/-- The server before the loop, with what was in the memory of `client`. -/
def State.start (garbage : ℕ → ℤ) : State where
  client := initClient garbage
  maxidx := -1
  maxfd := listenfd
  allset := {listenfd}
  conns := ∅
  calls := []

/-- What `select` returns, and what it leaves in `rset`. -/
structure SelectResult where
  nready : ℤ
  rset : Finset ℤ

/-- The body of the inner loop for a slot that is ready. -/
def readClient (s : State) (i : ℕ) (r : Reply) : State :=
  let sockfd := s.client i
  match r.read sockfd with
  | .closed => { s with
      client := Function.update s.client i (-1)
      allset := s.allset.erase sockfd
      conns := s.conns.erase sockfd
      calls := s.calls ++ [.read sockfd bufferLength, .close sockfd] }
  | .data bytes => { s with
      calls := s.calls ++ [.read sockfd bufferLength, .write sockfd bytes] }

/-- The loop over the slots. -/
def readLoop (r : Reply) (rset : Finset ℤ) : List ℕ → ℤ → State → Outcome State
  | [], _, s => .next s
  | i :: rest, nready, s =>
    if s.client i < 0 then readLoop r rset rest nready s
    else if s.client i ≥ fdSetsize then .outOfRange s
    else if s.client i ∈ rset then
      let s := readClient s i r
      if nready - 1 ≤ 0 then .next s else readLoop r rset rest (nready - 1) s
    else readLoop r rset rest nready s

/-- The loop `for (i = 0; i <= maxidx; i++)`. -/
def readClients (r : Reply) (rset : Finset ℤ) (nready : ℤ) (s : State) : Outcome State :=
  readLoop r rset (List.range (s.maxidx + 1).toNat) nready s

/-- A new connection in slot `i`. -/
def State.put (s : State) (i : ℕ) (connfd : ℤ) : State :=
  { s with
    client := Function.update s.client i connfd
    allset := insert connfd s.allset
    maxfd := if connfd > s.maxfd then connfd else s.maxfd
    maxidx := if i > s.maxidx then i else s.maxidx }

/-- A round of the main loop, after `select`. -/
def round (s : State) (p : SelectResult) (r : Reply) : Outcome State :=
  if listenfd ∈ p.rset then
    let s := { s with calls := s.calls ++ [.accept listenfd] }
    match r.accept with
    | .eintr => .next s
    | .error => .acceptError s
    | .fd connfd =>
      let s := { s with conns := insert connfd s.conns }
      match firstFree 0 fdSetsize s.client with
      | none => .tooManyClients s
      | some i =>
        if connfd ≥ fdSetsize then
          .outOfRange { s with client := Function.update s.client i connfd }
        else
          let s := s.put i connfd
          if p.nready - 1 ≤ 0 then .next s else readClients r p.rset (p.nready - 1) s
  else readClients r p.rset p.nready s

end CppExample.Echo.SelectServer
