/-
# A client that reads and writes at the same time

`str_cli` of `network/echo/d3_select_echo_client.cpp`, `d4_poll_echo_client.cpp` or
`d5_epoll_echo_client.cpp`, with the server that runs `str_echo` of `basic_lib/str_echo.c`, and a
connection between them.  The client does not wait for the answer to a line.  It asks which of its
two descriptors are readable, and handles them one after the other; with `select` and `poll` the
socket comes first, with `epoll_wait` the order is open.  At the end of the input it shuts its side
of the connection down, and goes on until the server does the same.

As for `StopAndWait`, a call transfers some of the bytes, there is room for `capacity` bytes in each
direction, and the server may fail at any time.  The steps depend on whether the system is
`prompt`: then a socket that is readable is reported, and `read` gives as much of what has arrived
as fits into the buffer.

What the client prints comes back in order, and nothing is missing when it returns, unless the
server has failed: `forwarded_in_order`.

The calls for the terminal, and those that wait for the descriptors, do not fail.
-/
import CppExample.Echo.StopAndWait

namespace CppExample.Echo.FullDuplex
open Lib BasicLib
open StopAndWait (bufferLength)

/-- The descriptors of the client. -/
inductive Ready where
  | socket
  | stdin
deriving DecidableEq, Repr

/-- Where `str_cli` is. -/
inductive Client where
  /-- With the descriptors that are still to be handled.  Without any, it waits. -/
  | handling (events : List Ready)
  /-- In `Writen`, at `write`, with what is left to write. -/
  | writen (left : List UInt8) (events : List Ready)
  | returned
  /-- In `err_quit ("str_cli: server terminated prematurely")`. -/
  | errQuit
  /-- In `err_sys`. -/
  | errSys
deriving DecidableEq, Repr

namespace Client

/-- The process has ended, or is about to. -/
def closed : Client → Bool
  | returned | errQuit | errSys => true
  | _ => false

def unsent : Client → List UInt8
  | writen left _ => left
  | _ => []

def events : Client → List Ready
  | handling events | writen _ events => events
  | _ => []

/-- `Writen`, and what follows it. -/
def onWriten (events : List Ready) : Writen → Client
  | .left bytes => writen bytes events
  | .returned => handling events
  | .failed => errSys

/-- There is nothing to read from the socket any more. -/
def onEof (stdineof : Bool) : Client := if stdineof then returned else errQuit

end Client

/-- The two processes and the connection. -/
structure Session where
  client : Client
  stdineof : Bool
  /-- What the terminal will still give. -/
  stdin : List UInt8
  stdout : List UInt8
  toServer : List UInt8
  toClient : List UInt8
  server : StrEcho

namespace Session

def start (input : List UInt8) : Session := ⟨.handling [], false, input, [], [], [], .reading⟩

/-- A call of `read` returns.  `stdin` is not watched any more after its end. -/
def Readable (s : Session) : Ready → Prop
  | .socket => s.toClient ≠ [] ∨ s.server.closed
  | .stdin => s.stdineof = false

end Session

/-- The kinds of steps. -/
inductive Act where
  | client
  | server
  /-- A call of the server is interrupted. -/
  | interrupted
  | serverFailed
deriving DecidableEq, Repr

/-- The steps of the client and of the server. -/
inductive Step (prompt : Prop) (capacity : ℕ) : Act → Session → Session → Prop
  | wait {s : Session} {events : List Ready} (h : s.client = .handling []) (hne : events ≠ [])
      (hnodup : events.Nodup) (hready : ∀ e ∈ events, s.Readable e)
      (hprompt : prompt → s.toClient ≠ [] → .socket ∈ events) :
      Step prompt capacity .client s { s with client := .handling events }
  | socketData {s : Session} {events : List Ready} {k : ℕ}
      (h : s.client = .handling (.socket :: events)) (hk : 0 < k) (hle : k ≤ s.toClient.length)
      (hmax : k ≤ bufferLength) (hprompt : prompt → k = min bufferLength s.toClient.length) :
      Step prompt capacity .client s { s with
        client := .handling events
        stdout := s.stdout ++ s.toClient.take k
        toClient := s.toClient.drop k }
  | socketEof {s : Session} {events : List Ready} (h : s.client = .handling (.socket :: events))
      (hempty : s.toClient = []) (hs : s.server.closed) :
      Step prompt capacity .client s { s with client := .onEof s.stdineof }
  | socketFailed {s : Session} {events : List Ready} (h : s.client = .handling (.socket :: events))
      (hs : s.server = .failed) :
      Step prompt capacity .client s { s with client := .onEof s.stdineof, toClient := [] }
  | stdinData {s : Session} {events : List Ready} {k : ℕ}
      (h : s.client = .handling (.stdin :: events)) (hk : 0 < k) (hle : k ≤ s.stdin.length)
      (hmax : k ≤ bufferLength) :
      Step prompt capacity .client s { s with
        client := .onWriten events (.loop (s.stdin.take k))
        stdin := s.stdin.drop k }
  | stdinEof {s : Session} {events : List Ready} (h : s.client = .handling (.stdin :: events))
      (hin : s.stdin = []) :
      Step prompt capacity .client s { s with client := .handling events, stdineof := true }
  | clientWrote {s : Session} {bytes : List UInt8} {events : List Ready} {k : ℕ}
      (h : s.client = .writen bytes events) (hk : 0 < k) (hle : k ≤ bytes.length)
      (hroom : s.toServer.length + k ≤ capacity) :
      Step prompt capacity .client s { s with
        client := .onWriten events (.onWrite bytes (.bytes k))
        toServer := s.toServer ++ bytes.take k }
  | writeFailed {s : Session} {bytes : List UInt8} {events : List Ready}
      (h : s.client = .writen bytes events) (hs : s.server = .failed) :
      Step prompt capacity .client s { s with client := .onWriten events (.onWrite bytes .error) }
  | serverRead {s : Session} {k : ℕ} (h : s.server = .reading) (hk : 0 < k)
      (hle : k ≤ s.toServer.length) (hmax : k ≤ maxline) :
      Step prompt capacity .server s { s with
        server := .onRead (.data (s.toServer.take k))
        toServer := s.toServer.drop k }
  | serverEof {s : Session} (h : s.server = .reading) (hempty : s.toServer = [])
      (hc : s.stdineof ∨ s.client.closed) :
      Step prompt capacity .server s { s with server := .onRead .eof }
  | serverWrote {s : Session} {bytes : List UInt8} {k : ℕ} (h : s.server = .writing bytes)
      (hk : 0 < k) (hle : k ≤ bytes.length) (hroom : s.toClient.length + k ≤ capacity) :
      Step prompt capacity .server s { s with
        server := .onWrite bytes (.bytes k)
        toClient := s.toClient ++ bytes.take k }
  | serverReadInterrupted {s : Session} (h : s.server = .reading) :
      Step prompt capacity .interrupted s { s with server := .onRead .eintr }
  | serverWriteInterrupted {s : Session} {bytes : List UInt8} (h : s.server = .writing bytes) :
      Step prompt capacity .interrupted s { s with server := .onWrite bytes .eintr }
  | serverFailed {s : Session} (h : ¬ s.server.closed) :
      Step prompt capacity .serverFailed s { s with server := .failed }

/-! ## Where the bytes are -/

/-- The input is what was printed, what is on its way back, what the server has, what is on its way
to it, what the client has, and what was not read yet; in this order. -/
structure Flow (capacity : ℕ) (input : List UInt8) (s : Session) : Prop where
  shown : s.stdout ++ s.toClient <+: input
  going : s.server ≠ .failed →
    s.stdout ++ s.toClient ++ s.server.left ++ s.toServer ++ s.client.unsent ++ s.stdin = input
  eof : s.stdineof = true → s.stdin = [] ∧ s.client.unsent = [] ∧ .stdin ∉ s.client.events
  served : s.server = .returned → s.stdineof = true ∧ s.toServer = []
  closed : s.client.closed = true →
    s.server = .failed ∨ s.client = .returned ∧ s.server = .returned ∧ s.toClient = []
  nodup : s.client.events.Nodup
  ready : .socket ∈ s.client.events → s.Readable .socket
  unsent : ∀ events, s.client ≠ .writen [] events
  left : s.server ≠ .writing []
  toServer : s.toServer.length ≤ capacity
  toClient : s.toClient.length ≤ capacity
  left_le : s.server.left.length ≤ maxline

variable {prompt : Prop} {capacity k : ℕ} {input bytes : List UInt8} {events : List Ready}
  {s t : Session} {a : Act}

/-! ## Small facts -/

@[simp] lemma unsent_handling : (Client.handling events).unsent = [] := rfl

@[simp] lemma unsent_writen : (Client.writen bytes events).unsent = bytes := rfl

@[simp] lemma events_handling : (Client.handling events).events = events := rfl

@[simp] lemma events_writen : (Client.writen bytes events).events = events := rfl

@[simp] lemma closed_handling : (Client.handling events).closed = false := rfl

@[simp] lemma closed_writen : (Client.writen bytes events).closed = false := rfl

/-- `Writen` has something to write, or the next descriptor is handled. -/
lemma onWriten_loop_cases (events : List Ready) (bytes : List UInt8) :
    bytes = [] ∧ Client.onWriten events (.loop bytes) = .handling events ∨
      bytes ≠ [] ∧ Client.onWriten events (.loop bytes) = .writen bytes events := by
  by_cases h : bytes = []
  · exact .inl ⟨h, by rw [h]; rfl⟩
  · exact .inr ⟨h, by rw [Writen.loop, if_neg h]; rfl⟩

@[simp] lemma unsent_onWriten_loop : (Client.onWriten events (.loop bytes)).unsent = bytes := by
  rcases onWriten_loop_cases events bytes with ⟨hb, h⟩ | ⟨-, h⟩
  · rw [h, hb, unsent_handling]
  · rw [h, unsent_writen]

@[simp] lemma events_onWriten_loop : (Client.onWriten events (.loop bytes)).events = events := by
  rcases onWriten_loop_cases events bytes with ⟨-, h⟩ | ⟨-, h⟩ <;> simp [h]

@[simp] lemma closed_onWriten_loop : (Client.onWriten events (.loop bytes)).closed = false := by
  rcases onWriten_loop_cases events bytes with ⟨-, h⟩ | ⟨-, h⟩ <;> simp [h]

lemma onWriten_loop_ne (events' : List Ready) :
    Client.onWriten events (.loop bytes) ≠ .writen [] events' := by
  rcases onWriten_loop_cases events bytes with ⟨-, h⟩ | ⟨hne, h⟩
  · simp [h]
  · simp [h, hne]

lemma onWrite_bytes (hk : 0 < k) :
    Client.onWriten events (.onWrite bytes (.bytes k))
      = .onWriten events (.loop (bytes.drop k)) := by
  rw [Writen.onWrite, if_neg (by omega)]

lemma onEof_cases (stdineof : Bool) :
    stdineof = true ∧ Client.onEof stdineof = .returned ∨
      stdineof = false ∧ Client.onEof stdineof = .errQuit := by
  cases stdineof
  · exact .inr ⟨rfl, rfl⟩
  · exact .inl ⟨rfl, rfl⟩

@[simp] lemma unsent_onEof (stdineof : Bool) : (Client.onEof stdineof).unsent = [] := by
  cases stdineof <;> rfl

@[simp] lemma events_onEof (stdineof : Bool) : (Client.onEof stdineof).events = [] := by
  cases stdineof <;> rfl

/-! ## One step -/

lemma flow_start (input : List UInt8) : Flow capacity input (Session.start input) := by
  constructor <;> simp [Session.start, Client.closed]

/-- While the client handles its events, the end of the server's side is the end of the service. -/
lemma Flow.returned_of_closed (h : Flow capacity input s) (hs : s.server.closed)
    (hne : s.server ≠ .failed) : s.server = .returned ∧ s.stdineof = true := by
  cases hserver : s.server with
  | returned => exact ⟨rfl, (h.served hserver).1⟩
  | failed => exact absurd hserver hne
  | reading => simp [hserver, StrEcho.closed] at hs
  | writing bytes => simp [hserver, StrEcho.closed] at hs

lemma Flow.wait (h : Flow capacity input s) (hc : s.client = .handling [])
    (hnodup : events.Nodup) (hready : ∀ e ∈ events, s.Readable e) :
    Flow capacity input { s with client := .handling events } := by
  have hunsent : s.client.unsent = [] := by rw [hc, unsent_handling]
  refine { h with
    going := fun hne => ?_, eof := fun he => ?_, closed := by simp, nodup := hnodup,
    ready := hready _, unsent := by simp }
  · have hgoing := h.going hne
    rwa [hunsent] at hgoing
  · refine ⟨(h.eof he).1, rfl, fun hmem => ?_⟩
    have hstdin : s.stdineof = false := hready _ hmem
    rw [hstdin] at he
    cases he

lemma Flow.socketData (h : Flow capacity input s)
    (hc : s.client = .handling (.socket :: events)) (k : ℕ) :
    Flow capacity input { s with
      client := .handling events
      stdout := s.stdout ++ s.toClient.take k
      toClient := s.toClient.drop k } := by
  have hnodup := h.nodup
  rw [hc, events_handling, List.nodup_cons] at hnodup
  refine { h with
    shown := ?_, going := fun hne => ?_, eof := fun he => ?_, closed := by simp,
    nodup := hnodup.2, ready := fun hmem => absurd hmem hnodup.1, unsent := by simp,
    toClient := ?_ }
  · rw [List.append_assoc, List.take_append_drop]
    exact h.shown
  · have hgoing := h.going hne
    rw [hc] at hgoing
    rw [List.append_assoc s.stdout, List.take_append_drop]
    exact hgoing
  · obtain ⟨hin, -, hstdin⟩ := h.eof he
    rw [hc, events_handling] at hstdin
    exact ⟨hin, rfl, fun hmem => hstdin (List.mem_cons_of_mem _ hmem)⟩
  · exact (List.drop_sublist _ _).length_le.trans h.toClient

/-- The end of the socket: the client returns, or it ends with an error. -/
lemma Flow.onEof (h : Flow capacity input s) (hc : s.client = .handling (.socket :: events))
    {rest : List UInt8} (hrest : rest = [] ∧ s.toClient = [] ∧ s.server.closed = true ∨
      rest = [] ∧ s.server = .failed) :
    Flow capacity input { s with client := .onEof s.stdineof, toClient := rest } := by
  have hnil : rest = [] := hrest.elim (·.1) (·.1)
  subst hnil
  refine { h with
    shown := ?_, going := fun hne => ?_, eof := fun he => ?_, closed := fun _ => ?_,
    nodup := by simp, ready := by simp, unsent := fun events => ?_, toClient := by simp }
  · rw [List.append_nil]
    exact (List.prefix_append _ _).trans h.shown
  · have hgoing := h.going hne
    rcases hrest with ⟨-, hempty, -⟩ | ⟨-, hfailed⟩
    · rw [hc, hempty] at hgoing
      simpa using hgoing
    · exact absurd hfailed hne
  · exact ⟨(h.eof he).1, by simp, by simp⟩
  · by_cases hfailed : s.server = .failed
    · exact .inl hfailed
    · rcases hrest with ⟨-, -, hclosed⟩ | ⟨-, hfailed'⟩
      · obtain ⟨hs, he⟩ := h.returned_of_closed hclosed hfailed
        exact .inr ⟨by rw [he]; rfl, hs, rfl⟩
      · exact absurd hfailed' hfailed
  · rcases onEof_cases s.stdineof with ⟨-, heq⟩ | ⟨-, heq⟩ <;> simp [heq]

lemma Flow.stdinData (h : Flow capacity input s) (hc : s.client = .handling (.stdin :: events))
    (k : ℕ) :
    Flow capacity input { s with
      client := .onWriten events (.loop (s.stdin.take k))
      stdin := s.stdin.drop k } := by
  have hnodup := h.nodup
  rw [hc, events_handling, List.nodup_cons] at hnodup
  have hready := h.ready
  rw [hc, events_handling] at hready
  refine { h with
    going := fun hne => ?_, eof := fun he => ?_, closed := by simp,
    nodup := by simpa using hnodup.2,
    ready := fun hmem => hready (List.mem_cons_of_mem _ (by simpa using hmem)),
    unsent := onWriten_loop_ne }
  · have hgoing := h.going hne
    rw [hc, unsent_handling, List.append_nil] at hgoing
    rw [unsent_onWriten_loop, List.append_assoc _ (s.stdin.take k), List.take_append_drop]
    exact hgoing
  · have hstdin := (h.eof he).2.2
    simp [hc] at hstdin

lemma Flow.stdinEof (h : Flow capacity input s) (hc : s.client = .handling (.stdin :: events))
    (hin : s.stdin = []) :
    Flow capacity input { s with client := .handling events, stdineof := true } := by
  have hnodup := h.nodup
  rw [hc, events_handling, List.nodup_cons] at hnodup
  have hready := h.ready
  rw [hc, events_handling] at hready
  refine { h with
    going := fun hne => ?_, eof := fun _ => ⟨hin, rfl, hnodup.1⟩,
    served := fun hs => ⟨rfl, (h.served hs).2⟩, closed := by simp, nodup := hnodup.2,
    ready := fun hmem => hready (List.mem_cons_of_mem _ hmem), unsent := by simp }
  have hgoing := h.going hne
  rw [hc] at hgoing
  exact hgoing

lemma Flow.clientWrote (h : Flow capacity input s) (hc : s.client = .writen bytes events)
    (hk : 0 < k) (hroom : s.toServer.length + k ≤ capacity) :
    Flow capacity input { s with
      client := .onWriten events (.onWrite bytes (.bytes k))
      toServer := s.toServer ++ bytes.take k } := by
  have hready := h.ready
  rw [hc, events_writen] at hready
  have hnodup := h.nodup
  rw [hc, events_writen] at hnodup
  have hbytes : bytes ≠ [] := by
    rintro rfl
    exact h.unsent events hc
  have hopen : ¬ s.stdineof = true := fun he => hbytes (by simpa [hc] using (h.eof he).2.1)
  rw [onWrite_bytes hk]
  refine { h with
    going := fun hne => ?_, eof := fun he => absurd he hopen,
    served := fun hs => absurd (h.served hs).1 hopen, closed := by simp,
    nodup := by simpa using hnodup,
    ready := fun hmem => hready (by simpa using hmem), unsent := onWriten_loop_ne, toServer := ?_ }
  · have hgoing := h.going hne
    rw [hc, unsent_writen] at hgoing
    rw [unsent_onWriten_loop, ← hgoing]
    simp only [List.append_assoc]
    rw [← List.append_assoc (bytes.take k), List.take_append_drop]
  · rw [List.length_append, List.length_take]
    omega

lemma Flow.writeFailed (h : Flow capacity input s) (hs : s.server = .failed) :
    Flow capacity input { s with client := .errSys } := by
  refine { h with
    going := fun hne => absurd hs hne,
    eof := fun he => ⟨(h.eof he).1, rfl, by simp [Client.events]⟩,
    closed := fun _ => .inl hs, nodup := by simp [Client.events], ready := by simp [Client.events],
    unsent := by simp }

/-- The server goes on with `rest` to be written. -/
lemma Flow.serverLoop (h : Flow capacity input s) {rest toServer toClient : List UInt8}
    (hs : s.server.closed = false)
    (hflow : toClient ++ rest ++ toServer = s.toClient ++ s.server.left ++ s.toServer)
    (hclient : s.toClient <+: toClient) (htoServer : toServer.length ≤ capacity)
    (htoClient : toClient.length ≤ capacity) (hrest : rest.length ≤ maxline) :
    Flow capacity input { s with
      server := .onWriten (.loop rest), toServer := toServer, toClient := toClient } := by
  have hne : s.server ≠ .failed := by
    intro hfailed
    simp [hfailed, StrEcho.closed] at hs
  have hgoing := h.going hne
  have hall : s.stdout ++ toClient ++ rest ++ toServer ++ s.client.unsent ++ s.stdin = input := by
    rw [← hgoing]
    have hmid := congrArg (s.stdout ++ · ++ s.client.unsent ++ s.stdin) hflow
    simpa only [List.append_assoc] using hmid
  refine { h with
    shown := ?_, going := fun _ => ?_, served := fun hret => ?_, closed := fun hc => ?_,
    ready := fun hmem => ?_, left := ?_, toServer := htoServer, toClient := htoClient,
    left_le := by simpa using hrest }
  · rw [← hall]
    simp only [List.append_assoc]
    exact ⟨_, by rw [List.append_assoc]⟩
  · rw [left_onWriten_loop]
    exact hall
  · rcases BasicLib.onWriten_loop_cases rest with ⟨-, heq⟩ | ⟨-, heq⟩ <;> simp [heq] at hret
  · rcases h.closed hc with hfailed | ⟨-, hret, -⟩
    · exact absurd hfailed hne
    · simp [hret, StrEcho.closed] at hs
  · rcases h.ready hmem with hclient' | hclosed
    · exact .inl fun hnil => hclient' (List.prefix_nil.1 (hnil ▸ hclient))
    · rw [hs] at hclosed
      cases hclosed
  · rcases BasicLib.onWriten_loop_cases rest with ⟨-, heq⟩ | ⟨hne', heq⟩ <;> simp [heq]
    exact hne'

lemma Flow.serverEof (h : Flow capacity input s) (hs : s.server = .reading)
    (hempty : s.toServer = []) (hc : s.stdineof ∨ s.client.closed) :
    Flow capacity input { s with server := .returned } := by
  have hopen : ¬ s.client.closed = true := by
    intro hclosed
    rcases h.closed hclosed with hfailed | ⟨-, hret, -⟩
    · simp [hs] at hfailed
    · simp [hs] at hret
  refine { h with
    going := fun _ => ?_, served := fun _ => ⟨hc.resolve_right hopen, hempty⟩,
    closed := fun hclosed => absurd hclosed hopen, ready := fun _ => .inr rfl, left := by simp,
    left_le := by simp }
  have hgoing := h.going (by simp [hs])
  rw [hs] at hgoing
  exact hgoing

lemma Flow.serverFailed (h : Flow capacity input s) :
    Flow capacity input { s with server := .failed } := by
  refine { h with
    going := fun hne => absurd rfl hne, served := by simp, closed := fun _ => .inl rfl,
    ready := fun _ => .inr rfl, left := by simp, left_le := by simp [StrEcho.left] }

lemma flow_step (hs : Flow capacity input s) (h : Step prompt capacity a s t) :
    Flow capacity input t := by
  cases h with
  | wait hc hne hnodup hready hprompt => exact hs.wait hc hnodup hready
  | socketData hc hk hle hmax hprompt => exact hs.socketData hc _
  | socketEof hc hempty hclosed => exact hempty ▸ hs.onEof hc (.inl ⟨rfl, hempty, hclosed⟩)
  | socketFailed hc hfailed => exact hs.onEof hc (.inr ⟨rfl, hfailed⟩)
  | stdinData hc hk hle hmax => exact hs.stdinData hc _
  | stdinEof hc hin => exact hs.stdinEof hc hin
  | clientWrote hc hk hle hroom => exact hs.clientWrote hc hk hroom
  | writeFailed hc hfailed => exact hs.writeFailed hfailed
  | @serverRead _ k hc hk hle hmax =>
    refine hs.serverLoop (by rw [hc]; rfl) ?_ List.prefix_rfl ?_ hs.toClient ?_
    · rw [List.append_assoc, List.take_append_drop, hc, left_reading, List.append_nil]
    · exact (List.drop_sublist _ _).length_le.trans hs.toServer
    · rw [List.length_take]
      omega
  | serverEof hc hempty hend => exact hs.serverEof hc hempty hend
  | @serverWrote _ bytes k hc hk hle hroom =>
    have hleft := hs.left_le
    rw [hc, left_writing] at hleft
    rw [onWrite_of_pos hk]
    refine hs.serverLoop (by rw [hc]; rfl) ?_ (List.prefix_append _ _) hs.toServer ?_ ?_
    · rw [hc, left_writing, List.append_assoc s.toClient, List.take_append_drop]
    · rw [List.length_append, List.length_take]
      omega
    · exact (List.drop_sublist _ _).length_le.trans hleft
  | serverReadInterrupted hc =>
    have heq : { s with server := .onRead .eintr } = s := by rw [StrEcho.onRead, ← hc]
    rwa [heq]
  | @serverWriteInterrupted _ bytes hc =>
    have hleft := hs.left_le
    rw [hc, left_writing] at hleft
    refine hs.serverLoop (by rw [hc]; rfl) ?_ List.prefix_rfl hs.toServer hs.toClient hleft
    rw [hc, left_writing]
  | serverFailed hopen => exact hs.serverFailed

/-! ## Every run -/

lemma flow_of_trace {acts : List Act}
    (h : Trace (Step prompt capacity) (Session.start input) acts s) : Flow capacity input s :=
  h.invariant (fun _ _ _ hs hst => flow_step hs hst) (flow_start input)

/-- What is printed is the beginning of the input.  If the client returns, then it is all of it,
and if the client ends in another way, then the server has failed; unless it has failed the bytes
that are not printed are on their way, in order. -/
theorem forwarded_in_order {acts : List Act}
    (h : Trace (Step prompt capacity) (Session.start input) acts s) :
    s.stdout <+: input ∧
      (s.server ≠ .failed →
        s.stdout ++ s.toClient ++ s.server.left ++ s.toServer ++ s.client.unsent ++ s.stdin
          = input ∧
        (s.client.closed → s.client = .returned ∧ s.stdout = input)) := by
  have hflow := flow_of_trace h
  refine ⟨(List.prefix_append _ _).trans hflow.shown, fun hne => ⟨hflow.going hne, fun hc => ?_⟩⟩
  rcases hflow.closed hc with hfailed | ⟨hret, hs, hempty⟩
  · exact absurd hfailed hne
  · obtain ⟨he, htoServer⟩ := hflow.served hs
    obtain ⟨hin, hunsent, -⟩ := hflow.eof he
    have hgoing := hflow.going hne
    rw [hs, hempty, htoServer, hunsent, hin] at hgoing
    exact ⟨hret, by simpa using hgoing⟩

/-- Two bytes are typed and come back; then both sides end. -/
lemma sample_run : ∃ acts s, Trace (Step True 6144) (Session.start [104, 105]) acts s ∧
    s.client = .returned ∧ s.server = .returned := by
  refine ⟨_, _, .cons (@Step.wait True _ _ [.stdin] rfl ?_ ?_ ?_ ?_)
    (.cons (@Step.stdinData True _ _ [] 2 rfl ?_ ?_ ?_)
    (.cons (@Step.clientWrote True _ _ [104, 105] [] 2 rfl ?_ ?_ ?_)
    (.cons (@Step.serverRead True _ _ 2 rfl ?_ ?_ ?_)
    (.cons (@Step.serverWrote True _ _ [104, 105] 2 rfl ?_ ?_ ?_)
    (.cons (@Step.wait True _ _ [.socket, .stdin] rfl ?_ ?_ ?_ ?_)
    (.cons (@Step.socketData True _ _ [.stdin] 2 rfl ?_ ?_ ?_ ?_)
    (.cons (@Step.stdinEof True _ _ [] rfl rfl)
    (.cons (.serverEof rfl rfl (.inl rfl))
    (.cons (@Step.wait True _ _ [.socket] rfl ?_ ?_ ?_ ?_)
    (.cons (@Step.socketEof True _ _ [] rfl rfl rfl) (.nil _))))))))))), rfl, rfl⟩
  all_goals
    simp [Session.start, Session.Readable, maxline, bufferLength, StrEcho.closed, StrEcho.onRead]

theorem forwarded_in_order_sample :
    ∃ s : Session, s.client = .returned ∧ s.stdout = [104, 105] := by
  obtain ⟨acts, s, h, hc, hs⟩ := sample_run
  exact ⟨s, hc, (((forwarded_in_order h).2 (by simp [hs])).2 (by rw [hc]; rfl)).2⟩

end CppExample.Echo.FullDuplex
