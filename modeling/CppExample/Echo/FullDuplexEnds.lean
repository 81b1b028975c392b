/-
# When both sides write

A client that sends while it is sent to can get stuck: it writes, and the server writes, and there
is no room in either direction, since neither of them reads.  This is the only way in which a
session does not come to its end, and it needs an input that fills both directions: `duplex_ends`.

When the system is prompt, the client takes from the socket in each round as much as it sends, or
all that there is.  So what is between its two ends stays bounded, whatever the length of the input,
and with room for `maxline + 2 * bufferLength` bytes the two sides never get stuck:
`never_deadlocked`.
-/
import CppExample.Echo.FullDuplex
import CppExample.Echo.StopAndWaitEnds

namespace CppExample.Echo.FullDuplex
open Lib BasicLib
open StopAndWait (bufferLength running running_false running_true)

variable {prompt : Prop} {capacity k : ℕ} {input bytes : List UInt8} {events : List Ready}
  {s t : Session} {a : Act}

/-! ## The work that is left -/

/-- A client that waits has one step more to do than one with something to handle. -/
def Client.idle : Client → ℕ
  | .handling [] => 1
  | _ => 0

/-- The work that is left. -/
def Session.work (s : Session) : ℕ :=
  7 * s.stdin.length + 6 * s.client.unsent.length + 4 * s.toServer.length
    + 3 * s.server.left.length + 2 * s.toClient.length + 2 * running s.stdineof
    + running s.client.closed + s.client.idle + running s.server.closed

lemma idle_le (c : Client) : c.idle ≤ 1 := by
  unfold Client.idle
  split <;> simp

@[simp] lemma idle_nil : (Client.handling []).idle = 1 := rfl

@[simp] lemma idle_cons (e : Ready) (events : List Ready) :
    (Client.handling (e :: events)).idle = 0 := rfl

@[simp] lemma idle_writen : (Client.writen bytes events).idle = 0 := rfl

@[simp] lemma closed_onEof (stdineof : Bool) : (Client.onEof stdineof).closed = true := by
  cases stdineof <;> rfl

@[simp] lemma idle_onEof (stdineof : Bool) : (Client.onEof stdineof).idle = 0 := by
  cases stdineof <;> rfl

lemma onWriten_loop_of_ne (h : bytes ≠ []) :
    Client.onWriten events (.loop bytes) = .writen bytes events := by
  rcases onWriten_loop_cases events bytes with ⟨hnil, -⟩ | ⟨-, heq⟩
  · exact absurd hnil h
  · exact heq

/-- The server goes on with `rest` to be written. -/
lemma work_of_loop {rest toServer toClient : List UInt8} (hs : s.server.closed = false)
    (hless : 4 * toServer.length + 3 * rest.length + 2 * toClient.length <
      4 * s.toServer.length + 3 * s.server.left.length + 2 * s.toClient.length) :
    ({ s with server := .onWriten (.loop rest), toServer := toServer, toClient := toClient } :
      Session).work < s.work := by
  simp only [Session.work, hs, left_onWriten_loop, StopAndWait.closed_onWriten_loop]
  omega

/-- An interruption does not make the work more, and any other step makes it less. -/
lemma work_step (hs : Flow capacity input s) (h : Step prompt capacity a s t) :
    t.work + (if a = .interrupted then 0 else 1) ≤ s.work := by
  cases h with
  | @wait _ events hc hne hnodup hready hprompt =>
    obtain ⟨e, events, rfl⟩ := List.exists_cons_of_ne_nil hne
    simp [Session.work, hc]
  | @socketData _ events k hc hk hle hmax hprompt =>
    have hidle := idle_le (.handling events)
    simp only [Session.work, hc, List.length_drop, unsent_handling, closed_handling, idle_cons,
      reduceCtorEq, if_false]
    omega
  | socketEof hc hempty hclosed => simp [Session.work, hc]
  | socketFailed hc hfailed => simp [Session.work, hc]
  | @stdinData _ events k hc hk hle hmax =>
    have hne : s.stdin.take k ≠ [] := by
      rw [← List.length_pos_iff, List.length_take]
      omega
    simp only [Session.work, hc, onWriten_loop_of_ne hne, List.length_drop, List.length_take,
      unsent_handling, unsent_writen, closed_handling, closed_writen, idle_writen, idle_cons,
      List.length_nil, reduceCtorEq, if_false]
    omega
  | @stdinEof _ events hc hin =>
    have hidle := idle_le (.handling events)
    have heof : s.stdineof = false := by
      by_contra he
      have hstdin := (hs.eof (by simpa using he)).2.2
      simp [hc] at hstdin
    simp only [Session.work, hc, heof, unsent_handling, closed_handling, idle_cons, running_true,
      running_false, reduceCtorEq, if_false]
    omega
  | @clientWrote _ bytes events k hc hk hle hroom =>
    have hidle := idle_le (.onWriten events (.loop (bytes.drop k)))
    simp only [Session.work, hc, onWrite_bytes hk, unsent_onWriten_loop, closed_onWriten_loop,
      unsent_writen, closed_writen, idle_writen, List.length_append, List.length_take,
      List.length_drop, reduceCtorEq, if_false]
    omega
  | @writeFailed _ bytes events hc hfailed =>
    simp [Session.work, hc, Writen.onWrite, Client.onWriten, Client.unsent, Client.closed,
      Client.idle]
  | @serverRead _ k hc hk hle hmax =>
    refine work_of_loop (by rw [hc]; rfl) ?_
    rw [List.length_drop, List.length_take]
    omega
  | serverEof hc hempty hend => simp [Session.work, hc, StrEcho.onRead, StrEcho.closed]
  | @serverWrote _ bytes k hc hk hle hroom =>
    rw [onWrite_of_pos hk]
    refine work_of_loop (by rw [hc]; rfl) ?_
    rw [hc, left_writing, List.length_append, List.length_drop, List.length_take]
    omega
  | serverReadInterrupted hc =>
    have heq : { s with server := .onRead .eintr } = s := by rw [StrEcho.onRead, ← hc]
    rw [heq]
    simp
  | @serverWriteInterrupted _ bytes hc =>
    have hleft : (StrEcho.onWrite bytes .eintr).left = bytes := left_onWriten_loop bytes
    have hclosed : (StrEcho.onWrite bytes .eintr).closed = false :=
      StopAndWait.closed_onWriten_loop bytes
    have hopen : s.server.closed = false := by rw [hc]; rfl
    simp only [Session.work, hleft, hclosed, hopen, if_true, add_zero]
    rw [hc, left_writing]
  | serverFailed hopen =>
    have hclosed : s.server.closed = false := by simpa using hopen
    have hfailed : StrEcho.failed.closed = true := rfl
    have hleft : StrEcho.failed.left = [] := rfl
    simp only [Session.work, hclosed, hfailed, hleft, running_true, running_false, List.length_nil,
      reduceCtorEq, if_false]
    omega

/-- The steps of a run are bounded by the work that there is at its beginning. -/
lemma work_of_trace {acts : List Act} (hs : Flow capacity input s)
    (h : Trace (Step prompt capacity) s acts t) :
    t.work + acts.countP (· ≠ .interrupted) ≤ s.work := by
  have huse : ∀ a s t, Flow capacity input s → Step prompt capacity a s t →
      decide (a ≠ .interrupted) = true → t.work + 1 ≤ s.work := by
    intro a s t hs hst ha
    have hstep := work_step hs hst
    rwa [if_neg (of_decide_eq_true ha)] at hstep
  have hgive : ∀ a s t, Flow capacity input s → Step prompt capacity a s t →
      decide (a ≠ .interrupted) = false → t.work ≤ s.work + 0 := by
    intro a s t hs hst _
    rw [add_zero]
    exact (Nat.le_add_right _ _).trans (work_step hs hst)
  have hle := h.add_countP_le (fun a s t hs hst => flow_step hs hst) huse hgive hs
  rwa [zero_mul, add_zero] at hle

/-! ## Where a session stops -/

/-- Nothing can happen any more, unless a call is interrupted or the server fails. -/
def Stopped (prompt : Prop) (capacity : ℕ) (s : Session) : Prop :=
  ∀ a t, Step prompt capacity a s t → a = .interrupted ∨ a = .serverFailed

/-- Both have ended, and the input was printed. -/
structure Complete (input : List UInt8) (s : Session) : Prop where
  client : s.client = .returned
  server : s.server = .returned
  stdout : s.stdout = input

/-- Both write, and there is no room. -/
structure Deadlock (capacity : ℕ) (s : Session) : Prop where
  client : ∃ bytes events, s.client = .writen bytes events ∧ bytes ≠ []
  server : ∃ bytes, s.server = .writing bytes ∧ bytes ≠ []
  toServer : s.toServer.length = capacity
  toClient : s.toClient.length = capacity

lemma Stopped.not_client (h : Stopped prompt capacity s) : ¬ Step prompt capacity .client s t := by
  intro hst
  rcases h _ _ hst with ha | ha <;> cases ha

lemma Stopped.not_server (h : Stopped prompt capacity s) : ¬ Step prompt capacity .server s t := by
  intro hst
  rcases h _ _ hst with ha | ha <;> cases ha

/-- A server that reads has nothing to read, and its client has not ended. -/
lemma Stopped.of_reading (h : Stopped prompt capacity s) (hs : s.server = .reading) :
    s.toServer = [] ∧ s.stdineof = false ∧ s.client.closed = false := by
  have hempty : s.toServer = [] := by
    by_contra hne
    have hpos := List.length_pos_iff.2 hne
    exact h.not_server (.serverRead hs one_pos hpos (by decide))
  have hopen : ¬ (s.stdineof ∨ s.client.closed) := fun hend =>
    h.not_server (.serverEof hs hempty hend)
  rw [not_or] at hopen
  exact ⟨hempty, by simpa using hopen.1, by simpa using hopen.2⟩

/-- A server that writes has no room. -/
lemma Stopped.of_writing (h : Stopped prompt capacity s) (hs : s.server = .writing bytes)
    (hne : bytes ≠ []) : capacity ≤ s.toClient.length := by
  by_contra hroom
  have hpos := List.length_pos_iff.2 hne
  exact h.not_server (.serverWrote hs one_pos hpos (by omega))

/-- A client that waits gets something to handle: what has not come yet, the server brings. -/
lemma Stopped.not_waiting (hcap : 0 < capacity) (h : Stopped prompt capacity s)
    (hs : Flow capacity input s) (halive : s.server ≠ .failed) : s.client ≠ .handling [] := by
  intro hc
  by_cases hsocket : s.Readable .socket
  · exact h.not_client (@Step.wait _ _ _ [.socket] hc (by simp) (by simp) (by simpa using hsocket)
      (by simp))
  · rw [Session.Readable, not_or, not_not] at hsocket
    by_cases hstdin : s.Readable .stdin
    · exact h.not_client (@Step.wait _ _ _ [.stdin] hc (by simp) (by simp) (by simpa using hstdin)
        (by simp [hsocket.1]))
    · cases hserver : s.server with
      | reading => exact hstdin (h.of_reading hserver).2.1
      | writing bytes =>
        have hne : bytes ≠ [] := by
          rintro rfl
          exact hs.left hserver
        have hfull := h.of_writing hserver hne
        rw [hsocket.1, List.length_nil] at hfull
        omega
      | returned => simp [hserver, StrEcho.closed] at hsocket
      | failed => exact halive hserver

/-- A descriptor that is ready is handled. -/
lemma Stopped.not_handling (h : Stopped prompt capacity s) (hs : Flow capacity input s)
    (e : Ready) (events : List Ready) : s.client ≠ .handling (e :: events) := by
  intro hc
  cases e with
  | socket =>
    by_cases hempty : s.toClient = []
    · rcases hs.ready (by simp [hc]) with hne | hclosed
      · exact hne hempty
      · exact h.not_client (.socketEof hc hempty hclosed)
    · have hpos := List.length_pos_iff.2 hempty
      exact h.not_client (.socketData hc (k := min bufferLength s.toClient.length)
        (by simp [bufferLength]; omega) (by omega) (by omega) (fun _ => rfl))
  | stdin =>
    by_cases hin : s.stdin = []
    · exact h.not_client (.stdinEof hc hin)
    · have hpos := List.length_pos_iff.2 hin
      exact h.not_client (.stdinData hc one_pos hpos (by decide))

/-- A client that writes stops only if the server writes too. -/
lemma Stopped.deadlock (hcap : 0 < capacity) (h : Stopped prompt capacity s)
    (hs : Flow capacity input s) (halive : s.server ≠ .failed)
    (hc : s.client = .writen bytes events) : Deadlock capacity s := by
  have hne : bytes ≠ [] := by
    rintro rfl
    exact hs.unsent events hc
  have hpos := List.length_pos_iff.2 hne
  have hfull : capacity ≤ s.toServer.length := by
    by_contra hroom
    exact h.not_client (.clientWrote hc one_pos hpos (by omega))
  cases hserver : s.server with
  | reading =>
    rw [(h.of_reading hserver).1, List.length_nil] at hfull
    omega
  | writing rest =>
    have hrest : rest ≠ [] := by
      rintro rfl
      exact hs.left hserver
    exact ⟨⟨bytes, events, hc, hne⟩, ⟨rest, hserver, hrest⟩, hs.toServer.antisymm hfull,
      hs.toClient.antisymm (h.of_writing hserver hrest)⟩
  | returned =>
    rw [(hs.served hserver).2, List.length_nil] at hfull
    omega
  | failed => exact absurd hserver halive

/-- A client ends with all its input printed. -/
lemma complete_of_closed (hs : Flow capacity input s) (halive : s.server ≠ .failed)
    (hc : s.client.closed = true) : Complete input s := by
  rcases hs.closed hc with hfailed | ⟨hret, hserver, hempty⟩
  · exact absurd hfailed halive
  · obtain ⟨he, htoServer⟩ := hs.served hserver
    obtain ⟨hin, hunsent, -⟩ := hs.eof he
    have hgoing := hs.going halive
    rw [hserver, hempty, htoServer, hunsent, hin] at hgoing
    exact ⟨hret, hserver, by simpa using hgoing⟩

/-- Where a session stops. -/
lemma complete_or_deadlock (hcap : 0 < capacity) (hs : Flow capacity input s)
    (halive : s.server ≠ .failed) (hstop : Stopped prompt capacity s) :
    Complete input s ∨ Deadlock capacity s := by
  cases hc : s.client with
  | handling events =>
    cases events with
    | nil => exact absurd hc (hstop.not_waiting hcap hs halive)
    | cons e events => exact absurd hc (hstop.not_handling hs e events)
  | writen bytes events => exact .inr (hstop.deadlock hcap hs halive hc)
  | returned | errQuit | errSys => exact .inl (complete_of_closed hs halive (by rw [hc]; rfl))

/-! ## A prompt system -/

/-- The bytes that the client has read and not printed. -/
def Session.between (s : Session) : ℕ :=
  s.client.unsent.length + s.toServer.length + s.server.left.length + s.toClient.length

/-- `n`, if the descriptor is still to be handled. -/
def Client.pending (c : Client) (e : Ready) (n : ℕ) : ℕ := if e ∈ c.events then n else 0

/-- What is between the two ends of the client, with what a read from the terminal can add to it,
and without what a read from the socket will take away. -/
def Bounded (capacity : ℕ) (s : Session) : Prop :=
  s.between + s.client.pending .stdin bufferLength ≤ capacity + maxline + bufferLength
    + s.client.pending .socket (min bufferLength s.toClient.length)

section Pending

variable {c : Client} {e e' : Ready} {n m : ℕ}

lemma pending_of_notMem (h : e ∉ c.events) : c.pending e n = 0 := if_neg h

lemma pending_of_mem (h : e ∈ c.events) : c.pending e n = n := if_pos h

lemma pending_congr {c' : Client} (h : e ∈ c.events ↔ e ∈ c'.events) :
    c.pending e n = c'.pending e n := by
  by_cases he : e ∈ c.events
  · rw [pending_of_mem he, pending_of_mem (h.1 he)]
  · rw [pending_of_notMem he, pending_of_notMem (mt h.2 he)]

lemma pending_le (c : Client) (e : Ready) (n : ℕ) : c.pending e n ≤ n := by
  unfold Client.pending
  split <;> simp

lemma pending_mono (h : n ≤ m) : c.pending e n ≤ c.pending e m := by
  unfold Client.pending
  split
  · exact h
  · exact le_rfl

@[simp] lemma pending_nil : (Client.handling []).pending e n = 0 := rfl

@[simp] lemma pending_cons_self : (Client.handling (e :: events)).pending e n = n :=
  pending_of_mem (by simp)

lemma pending_cons_of_ne (h : e ≠ e') :
    (Client.handling (e' :: events)).pending e n = (Client.handling events).pending e n :=
  pending_congr (by simp [h])

@[simp] lemma pending_writen :
    (Client.writen bytes events).pending e n = (Client.handling events).pending e n := rfl

@[simp] lemma pending_onWriten_loop :
    (Client.onWriten events (.loop bytes)).pending e n = (Client.handling events).pending e n :=
  pending_congr (by simp)

@[simp] lemma pending_onEof (stdineof : Bool) : (Client.onEof stdineof).pending e n = 0 :=
  pending_of_notMem (by simp)

end Pending

/-- The server does not change what is between, and there is more for the client to read. -/
lemma Bounded.server (h : Bounded capacity s) {toServer toClient : List UInt8} {echo : StrEcho}
    (hflow : toServer.length + echo.left.length + toClient.length
      ≤ s.toServer.length + s.server.left.length + s.toClient.length)
    (hclient : s.toClient.length ≤ toClient.length) :
    Bounded capacity { s with server := echo, toServer := toServer, toClient := toClient } := by
  have hmono : s.client.pending .socket (min bufferLength s.toClient.length)
      ≤ s.client.pending .socket (min bufferLength toClient.length) := pending_mono (by omega)
  simp only [Bounded, Session.between] at h ⊢
  omega

/-- The events of a round: the one that was handled is not among the rest. -/
lemma Flow.notMem_of_handling (h : Flow capacity input s) {e : Ready}
    (hc : s.client = .handling (e :: events)) : e ∉ (Client.handling events).events := by
  have hnodup := h.nodup
  rw [hc, events_handling, List.nodup_cons] at hnodup
  exact hnodup.1

/-- Before a round there is room for what the terminal will give, or the socket will be read. -/
lemma Bounded.wait (hb : Bounded capacity s) (hs : Flow capacity input s)
    (hc : s.client = .handling []) (hprompt : s.toClient ≠ [] → .socket ∈ events) :
    Bounded capacity { s with client := .handling events } := by
  have htoServer := hs.toServer
  have hleft := hs.left_le
  have hstdin := pending_le (.handling events) .stdin bufferLength
  simp only [Bounded, Session.between, hc, unsent_handling, pending_nil, List.length_nil] at hb ⊢
  by_cases hempty : s.toClient = []
  · rw [hempty, List.length_nil]
    omega
  · rw [pending_of_mem (c := .handling events) (e := .socket) (hprompt hempty)]
    omega

/-- One round, step by step. -/
lemma bounded_step (hs : Flow capacity input s) (hb : Bounded capacity s)
    (h : Step True capacity a s t) (halive : t.server ≠ .failed) : Bounded capacity t := by
  cases h with
  | wait hc hne hnodup hready hprompt => exact hb.wait hs hc (hprompt trivial)
  | @socketData _ events k hc hk hle hmax hprompt =>
    have hfull := hprompt trivial
    rw [Bounded, hc, pending_cons_of_ne (show Ready.stdin ≠ .socket by decide),
      pending_cons_self, Session.between, hc] at hb
    rw [Bounded, pending_of_notMem (e := .socket) (hs.notMem_of_handling hc), Session.between]
    simp only [unsent_handling, List.length_drop] at hb ⊢
    omega
  | @socketEof _ events hc hempty hclosed =>
    rw [Bounded, hc, pending_cons_self, hempty, Session.between, hc] at hb
    rw [Bounded, pending_onEof, pending_onEof, Session.between]
    simp only [unsent_handling, unsent_onEof, List.length_nil] at hb ⊢
    omega
  | socketFailed hc hfailed => exact absurd hfailed halive
  | @stdinData _ events k hc hk hle hmax =>
    rw [Bounded, hc, pending_cons_of_ne (show Ready.socket ≠ .stdin by decide),
      pending_cons_self, Session.between, hc] at hb
    rw [Bounded, pending_onWriten_loop, pending_onWriten_loop,
      pending_of_notMem (e := .stdin) (hs.notMem_of_handling hc), Session.between]
    simp only [unsent_handling, unsent_onWriten_loop, List.length_nil, List.length_take] at hb ⊢
    omega
  | @stdinEof _ events hc hin =>
    rw [Bounded, hc, pending_cons_of_ne (show Ready.socket ≠ .stdin by decide),
      pending_cons_self, Session.between, hc] at hb
    rw [Bounded, pending_of_notMem (e := .stdin) (hs.notMem_of_handling hc), Session.between]
    simp only [unsent_handling] at hb ⊢
    omega
  | @clientWrote _ bytes events k hc hk hle hroom =>
    rw [Bounded, hc, Session.between, hc] at hb
    rw [Bounded, onWrite_bytes hk, Session.between]
    simp only [pending_writen, pending_onWriten_loop, unsent_writen, unsent_onWriten_loop,
      List.length_append, List.length_take, List.length_drop] at hb ⊢
    omega
  | writeFailed hc hfailed => exact absurd hfailed halive
  | @serverRead _ k hc hk hle hmax =>
    refine hb.server ?_ le_rfl
    simp only [StrEcho.onRead, left_onWriten_loop, List.length_drop, List.length_take]
    omega
  | serverEof hc hempty hend =>
    refine hb.server ?_ le_rfl
    simp [StrEcho.onRead]
  | @serverWrote _ bytes k hc hk hle hroom =>
    rw [onWrite_of_pos hk]
    refine hb.server ?_ ?_
    · rw [hc, left_writing, left_onWriten_loop, List.length_append, List.length_drop,
        List.length_take]
      omega
    · rw [List.length_append]
      omega
  | serverReadInterrupted hc =>
    refine hb.server ?_ le_rfl
    simp [StrEcho.onRead]
  | @serverWriteInterrupted _ bytes hc =>
    have hleft : (StrEcho.onWrite bytes .eintr).left = bytes := left_onWriten_loop bytes
    refine hb.server ?_ le_rfl
    rw [hleft, hc, left_writing]
  | serverFailed hopen => exact absurd rfl halive

/-- A server that has failed stays so. -/
lemma failed_of_step (h : Step prompt capacity a s t) (hs : s.server = .failed) :
    t.server = .failed := by
  cases h <;> simp_all

lemma bounded_of_trace {acts : List Act}
    (h : Trace (Step True capacity) (Session.start input) acts s) (halive : s.server ≠ .failed) :
    Bounded capacity s := by
  refine h.invariant
    (I := fun s => Flow capacity input s ∧ (s.server ≠ .failed → Bounded capacity s))
    (fun a s t hs hst => ⟨flow_step hs.1 hst, fun hne => ?_⟩) ⟨flow_start input, fun _ => ?_⟩
    |>.2 halive
  · exact bounded_step hs.1 (hs.2 fun hfailed => hne (failed_of_step hst hfailed)) hst hne
  · simp [Bounded, Session.between, Session.start]

/-! ## Every run -/

/-- A session has a bounded number of steps.  If it stops, and the server has not failed, then
either both have ended, and the input was printed, or both write and there is no room; for this
the input has to fill both directions. -/
theorem duplex_ends (hcap : 0 < capacity) {acts : List Act}
    (h : Trace (Step prompt capacity) (Session.start input) acts s) :
    acts.countP (· ≠ .interrupted) ≤ 7 * input.length + 5 ∧
      (s.server ≠ .failed → Stopped prompt capacity s →
        Complete input s ∨ Deadlock capacity s ∧ 2 * capacity + 2 ≤ input.length) := by
  have hflow := flow_of_trace h
  refine ⟨?_, fun halive hstop => ?_⟩
  · have hstart : (Session.start input).work = 7 * input.length + 5 := by
      simp [Session.start, Session.work, Client.closed, StrEcho.closed]
    have hwork := work_of_trace (flow_start input) h
    omega
  · refine (complete_or_deadlock hcap hflow halive hstop).imp_right fun hd => ⟨hd, ?_⟩
    obtain ⟨bytes, events, hc, hne⟩ := hd.client
    obtain ⟨rest, hserver, hrest⟩ := hd.server
    have hlen := congrArg List.length (hflow.going halive)
    have hpos := List.length_pos_iff.2 hne
    have hpos' := List.length_pos_iff.2 hrest
    simp only [List.length_append, hc, hserver, unsent_writen, left_writing, hd.toServer,
      hd.toClient] at hlen
    omega

/-- If a socket that is readable is reported, and `read` gives all that fits, then with enough room
the two sides do not get stuck, whatever the input is and however it comes. -/
theorem never_deadlocked (hcap : maxline + 2 * bufferLength ≤ capacity) {acts : List Act}
    (h : Trace (Step True capacity) (Session.start input) acts s) (halive : s.server ≠ .failed)
    (hstop : Stopped True capacity s) : Complete input s := by
  have hpos : 0 < maxline := by decide
  refine (complete_or_deadlock (by omega) (flow_of_trace h) halive hstop).resolve_right fun hd => ?_
  obtain ⟨bytes, events, hc, hne⟩ := hd.client
  obtain ⟨rest, hserver, hrest⟩ := hd.server
  have hbound := bounded_of_trace h halive
  have hpos := List.length_pos_iff.2 hne
  have hpos' := List.length_pos_iff.2 hrest
  have hsocket := pending_le s.client .socket (min bufferLength capacity)
  rw [Bounded, Session.between, hd.toServer, hd.toClient, hserver, left_writing, hc, unsent_writen,
    ← hc] at hbound
  omega

/-- When both have ended, nothing can happen. -/
lemma stopped_of_returned (hc : s.client = .returned) (hs : s.server = .returned) :
    Stopped prompt capacity s := by
  intro a t h
  cases h <;> simp_all [StrEcho.closed]

theorem never_deadlocked_sample : ∃ s : Session, Complete [104, 105] s := by
  obtain ⟨acts, s, h, hc, hs⟩ := sample_run
  exact ⟨s, never_deadlocked (by decide) h (by simp [hs]) (stopped_of_returned hc hs)⟩

/-- There is room for one byte in each direction, and four are typed. -/
lemma sample_deadlock : ∃ acts s, Trace (Step True 1) (Session.start [1, 2, 3, 4]) acts s ∧
    s = ⟨.writen [4] [], false, [], [], [3], [1], .writing [2]⟩ := by
  refine ⟨_, _, .cons (@Step.wait True _ _ [.stdin] rfl ?_ ?_ ?_ ?_)
    (.cons (@Step.stdinData True _ _ [] 4 rfl ?_ ?_ ?_)
    (.cons (@Step.clientWrote True _ _ [1, 2, 3, 4] [] 1 rfl ?_ ?_ ?_)
    (.cons (@Step.serverRead True _ _ 1 rfl ?_ ?_ ?_)
    (.cons (@Step.serverWrote True _ _ [1] 1 rfl ?_ ?_ ?_)
    (.cons (@Step.clientWrote True _ _ [2, 3, 4] [] 1 rfl ?_ ?_ ?_)
    (.cons (@Step.serverRead True _ _ 1 rfl ?_ ?_ ?_)
    (.cons (@Step.clientWrote True _ _ [3, 4] [] 1 rfl ?_ ?_ ?_) (.nil _)))))))), rfl⟩
  all_goals simp [Session.start, Session.Readable, maxline, bufferLength]

theorem duplex_ends_sample : ∃ s : Session,
    Complete [1, 2, 3, 4] s ∨ Deadlock 1 s ∧ 2 * 1 + 2 ≤ [1, 2, 3, 4].length := by
  obtain ⟨acts, s, h, rfl⟩ := sample_deadlock
  refine ⟨_, (duplex_ends (by decide) h).2 (by simp) fun a t hst => ?_⟩
  cases hst <;> simp_all [StrEcho.closed]

end CppExample.Echo.FullDuplex
