/-
# The poll echo server

The main loop of `network/echo/d4_poll_echo_server.cpp`.  The descriptors are in the array
`client`, the listening one in entry 0; `poll` writes the `revents` of the entries up to
`maxidx`.  A new connection goes into the first entry that is free.  Then the entries are
visited in turn, until `nready` of them have been found ready.

Neither `revents` nor, of a free entry, `events` is ever initialised.  Whatever they are, and
whatever `poll` reports, the array has the open connections when `poll` is called, and a
connection is refused only when all entries are taken: `tableOk_of_reach`.

`maxfd`, which is never read, is left out.
-/
import CppExample.Echo.EpollServer
import CppExample.Lib.Slots

namespace CppExample.Echo

/-- A system call of a server on a socket, with its arguments. -/
inductive Call where
  | accept (listenfd : ℤ)
  | read (sockfd : ℤ) (size : ℕ)
  | write (sockfd : ℤ) (bytes : List UInt8)
  | close (sockfd : ℤ)
deriving DecidableEq, Repr

/-- The answers of the kernel in a round of the main loop. -/
structure Reply where
  accept : EpollServer.AcceptResult
  read : ℤ → EpollServer.ReadResult

/-- What the kernel may answer: a new descriptor is not open, and `read` fills at most the
buffer. -/
structure Reply.Ok (listenfd : ℤ) (conns : Finset ℤ) (r : Reply) : Prop where
  accept : ∀ c, r.accept = .fd c → 0 ≤ c ∧ c ≠ listenfd ∧ c ∉ conns
  read : ∀ fd bytes, r.read fd = .data bytes → bytes ≠ [] ∧ bytes.length ≤ 1024

/-- How a round of the main loop ends. -/
inductive Outcome (S : Type) where
  /-- With the next round. -/
  | next (s : S)
  /-- `err_sys ("accept error")`. -/
  | acceptError (s : S)
  /-- `err_quit ("too many clients")`. -/
  | tooManyClients (s : S)
  /-- With a descriptor that no `fd_set` can have. -/
  | outOfRange (s : S)

namespace PollServer
open Lib

/-- `BUFFER_LENGTH`. -/
def bufferLength : ℕ := 1024

/-- `MAX_POLL_SIZE`. -/
def maxPollSize : ℕ := 4096

/-- `POLLRDNORM`. -/
def pollrdnorm : UInt16 := 0x040

/-- `struct pollfd`. -/
structure PollFd where
  fd : ℤ
  events : UInt16
  revents : UInt16
deriving DecidableEq, Repr

/-- The test of `revents`. -/
def PollFd.readable (e : PollFd) : Bool := e.revents &&& pollrdnorm != 0

/-- The server, with what the kernel knows of it. -/
structure State where
  client : ℕ → PollFd
  maxidx : ℕ
  /-- The accepted connections that have not been closed. -/
  conns : Finset ℤ
  calls : List Call

/-- The descriptors of the entries. -/
def State.fds (s : State) (i : ℕ) : ℤ := (s.client i).fd

variable (listenfd : ℤ)

/-- The server before the loop, with what was in the memory of `client`. -/
def State.start (garbage : ℕ → PollFd) : State where
  client := Function.update (fun i => { garbage i with fd := -1 }) 0
    { garbage 0 with fd := listenfd, events := pollrdnorm }
  maxidx := 0
  conns := ∅
  calls := []

/-- What `poll` returns, and what it writes. -/
structure PollResult where
  nready : ℤ
  revents : ℕ → UInt16

/-- `poll (client, maxidx + 1, INFTIM)`. -/
def State.poll (s : State) (p : PollResult) : State :=
  { s with client := fun i =>
      if i ≤ s.maxidx then { s.client i with revents := p.revents i } else s.client i }

/-- The body of the inner loop for an entry that is ready. -/
def readClient (s : State) (i : ℕ) (r : Reply) : State :=
  let sockfd := (s.client i).fd
  match r.read sockfd with
  | .closed => { s with
      client := Function.update s.client i { s.client i with fd := -1 }
      conns := s.conns.erase sockfd
      calls := s.calls ++ [.read sockfd bufferLength, .close sockfd] }
  | .data bytes => { s with
      calls := s.calls ++ [.read sockfd bufferLength, .write sockfd bytes] }

/-- The loop over the entries. -/
def readLoop (r : Reply) : List ℕ → ℤ → State → State
  | [], _, s => s
  | i :: rest, nready, s =>
    if (s.client i).fd < 0 then readLoop r rest nready s
    else if (s.client i).readable then
      let s := readClient s i r
      if nready - 1 ≤ 0 then s else readLoop r rest (nready - 1) s
    else readLoop r rest nready s

/-- The loop `for (i = 1; i <= maxidx; i++)`. -/
def readClients (r : Reply) (nready : ℤ) (s : State) : State :=
  readLoop r (List.range' 1 s.maxidx) nready s

/-- A new connection in entry `i`. -/
def State.put (s : State) (i : ℕ) (connfd : ℤ) : State :=
  { s with
    client := Function.update s.client i { s.client i with fd := connfd, events := pollrdnorm }
    maxidx := if i > s.maxidx then i else s.maxidx }

/-- A round of the main loop, after `poll`. -/
def handle (s : State) (nready : ℤ) (r : Reply) : Outcome State :=
  if (s.client 0).readable then
    let s := { s with calls := s.calls ++ [.accept listenfd] }
    match r.accept with
    | .eintr => .next s
    | .error => .acceptError s
    | .fd connfd =>
      let s := { s with conns := insert connfd s.conns }
      match firstFree 1 maxPollSize s.fds with
      | none => .tooManyClients s
      | some i =>
        let s := s.put i connfd
        if nready - 1 ≤ 0 then .next s else .next (readClients r (nready - 1) s)
  else .next (readClients r nready s)

/-- A round of the main loop. -/
def round (s : State) (p : PollResult) (r : Reply) : Outcome State :=
  handle listenfd (s.poll p) p.nready r

/-- A round after which there is another one. -/
def Next (s t : State) : Prop :=
  ∃ p r, Reply.Ok listenfd s.conns r ∧ round listenfd s p r = .next t

/-- The server before the loop, whatever was in its memory. -/
def Init (s : State) : Prop := ∃ garbage, s = State.start listenfd garbage

/-- The states of the server when it calls `poll`, in all runs. -/
def Reach (s : State) : Prop := Reachable (Init listenfd) (Next listenfd) s

variable {listenfd} {s t : State} {r : Reply} {i : ℕ}

/-! ## The table -/

/-- The listening descriptor is in entry 0, and the open connections are in the others, each in
one of them.  The entries above `maxidx` are free, as at the beginning. -/
structure TableOk (listenfd : ℤ) (s : State) : Prop where
  listener : s.fds 0 = listenfd
  holds : Holds 1 maxPollSize s.fds s.conns
  above : ∀ i, s.maxidx < i → i < maxPollSize → s.fds i = -1
  maxidx_lt : s.maxidx < maxPollSize

/-- Only the descriptors, `conns` and `maxidx` matter. -/
lemma TableOk.congr (h : TableOk listenfd s) (hfds : t.fds = s.fds) (hconns : t.conns = s.conns)
    (hmaxidx : t.maxidx = s.maxidx) : TableOk listenfd t := by
  refine ⟨?_, ?_, ?_, ?_⟩
  · rw [hfds]
    exact h.listener
  · rw [hfds, hconns]
    exact h.holds
  · rw [hfds, hmaxidx]
    exact h.above
  · rw [hmaxidx]
    exact h.maxidx_lt

lemma fds_start (garbage : ℕ → PollFd) :
    (State.start listenfd garbage).fds = Function.update (fun _ => -1) 0 listenfd := by
  ext i
  by_cases hi : i = 0
  · subst hi
    simp [State.fds, State.start]
  · simp [State.fds, State.start, hi]

lemma fds_poll (s : State) (p : PollResult) : (s.poll p).fds = s.fds := by
  ext i
  simp only [State.fds, State.poll]
  split <;> rfl

/-- The descriptors after an entry was written. -/
lemma fd_update (client : ℕ → PollFd) (i : ℕ) (e : PollFd) :
    (fun j => (Function.update client i e j).fd)
      = Function.update (fun j => (client j).fd) i e.fd := by
  ext j
  by_cases hj : j = i
  · subst hj
    simp
  · simp [hj]

lemma fds_put (s : State) (i : ℕ) (connfd : ℤ) :
    (s.put i connfd).fds = Function.update s.fds i connfd := fd_update s.client i _

lemma tableOk_start (garbage : ℕ → PollFd) : TableOk listenfd (State.start listenfd garbage) := by
  have hfree : ∀ i, 0 < i → (State.start listenfd garbage).fds i = -1 := by
    intro i hi
    rw [fds_start, Function.update_of_ne hi.ne']
  refine ⟨?_, holds_empty fun i hlo _ => ?_, fun i hi _ => hfree i hi, Nat.succ_pos _⟩
  · rw [fds_start, Function.update_self]
  · rw [hfree i hlo]
    decide

/-- What `poll` writes does not matter. -/
lemma TableOk.poll (h : TableOk listenfd s) (p : PollResult) : TableOk listenfd (s.poll p) :=
  h.congr (fds_poll s p) rfl rfl

/-- A new connection is put into a free entry. -/
lemma TableOk.put (h : TableOk listenfd s) {connfd : ℤ} (hlo : 1 ≤ i) (hhi : i < maxPollSize)
    (hfree : s.fds i < 0) (hc : 0 ≤ connfd) (hnew : connfd ∉ s.conns) :
    TableOk listenfd { s.put i connfd with conns := insert connfd s.conns } := by
  have hfds : State.fds { s.put i connfd with conns := insert connfd s.conns }
      = Function.update s.fds i connfd := fds_put s i connfd
  refine ⟨?_, ?_, fun j hj hj' => ?_, ?_⟩
  · rw [hfds, Function.update_of_ne (by omega)]
    exact h.listener
  · rw [hfds]
    exact h.holds.put hlo hhi hfree hc hnew
  · have hlt : i < j ∧ s.maxidx < j := by
      simp only [State.put] at hj
      split at hj <;> omega
    rw [hfds, Function.update_of_ne (by omega)]
    exact h.above j hlt.2 hj'
  · have hlt := h.maxidx_lt
    simp only [State.put]
    split <;> omega

lemma maxidx_readClient (s : State) (i : ℕ) (r : Reply) : (readClient s i r).maxidx = s.maxidx := by
  rw [readClient]
  dsimp only
  split <;> rfl

/-- A connection that is gone leaves its entry free. -/
lemma TableOk.readClient (h : TableOk listenfd s) (hlo : 1 ≤ i) (hhi : i ≤ s.maxidx)
    (hfd : 0 ≤ s.fds i) (r : Reply) : TableOk listenfd (readClient s i r) := by
  have hlt := h.maxidx_lt
  rw [PollServer.readClient]
  dsimp only
  split
  · have hfds : ∀ conns calls, State.fds
        ⟨Function.update s.client i { s.client i with fd := -1 }, s.maxidx, conns, calls⟩
        = Function.update s.fds i (-1) := fun _ _ => fd_update s.client i _
    refine ⟨?_, ?_, fun j (hj : s.maxidx < j) hj' => ?_, hlt⟩
    · rw [hfds, Function.update_of_ne (by omega)]
      exact h.listener
    · rw [hfds]
      exact h.holds.clear hlo (by omega) hfd (by decide)
    · rw [hfds, Function.update_of_ne (by omega)]
      exact h.above j hj hj'
  · exact h.congr rfl rfl rfl

/-- What reading one connection keeps is kept by the loop. -/
lemma readLoop_invariant {I : State → Prop} {is : List ℕ} (r : Reply)
    (hread : ∀ s i, i ∈ is → 0 ≤ s.fds i → I s → I (readClient s i r)) (nready : ℤ) (h : I s) :
    I (readLoop r is nready s) := by
  induction is generalizing s nready with
  | nil => exact h
  | cons i is ih =>
    have hrest : ∀ s j, j ∈ is → 0 ≤ s.fds j → I s → I (readClient s j r) :=
      fun s j hj => hread s j (List.mem_cons_of_mem _ hj)
    rw [readLoop]
    split
    · exact ih hrest nready h
    · next hfd =>
      split
      · have hI := hread s i List.mem_cons_self (not_lt.1 hfd) h
        dsimp only
        split
        · exact hI
        · exact ih hrest (nready - 1) hI
      · exact ih hrest nready h

lemma TableOk.readClients (h : TableOk listenfd s) (nready : ℤ) (r : Reply) :
    TableOk listenfd (readClients r nready s) := by
  have hloop := @readLoop_invariant s (fun t => TableOk listenfd t ∧ t.maxidx = s.maxidx)
    (List.range' 1 s.maxidx) r ?_ nready ⟨h, rfl⟩
  · exact hloop.1
  · rintro t i hi hfd ⟨ht, hmax⟩
    rw [List.mem_range'_1] at hi
    refine ⟨ht.readClient hi.1 (by omega) hfd r, ?_⟩
    rw [maxidx_readClient, hmax]

/-- The table is kept by a round, and when a connection is refused it is full. -/
lemma TableOk.handle (h : TableOk listenfd s) (hr : Reply.Ok listenfd s.conns r) (nready : ℤ) :
    (∀ t, handle listenfd s nready r = .next t → TableOk listenfd t) ∧
      (∀ t, handle listenfd s nready r = .tooManyClients t →
        ∀ i, 1 ≤ i → i < maxPollSize → 0 ≤ s.fds i) := by
  rw [PollServer.handle]
  dsimp only
  split
  · split
    · refine ⟨fun t ht => ?_, fun t ht => ?_⟩
      · obtain rfl := Outcome.next.inj ht
        exact h.congr rfl rfl rfl
      · cases ht
    · refine ⟨fun t ht => ?_, fun t ht => ?_⟩ <;> cases ht
    · next connfd haccept =>
      obtain ⟨hc, -, hnew⟩ := hr.accept connfd haccept
      split
      · next hnone =>
        refine ⟨fun t ht => ?_, fun _ _ i hlo hhi => firstFree_eq_none hnone hlo hhi⟩
        cases ht
      · next i hsome =>
        obtain ⟨hlo, hhi, hfree⟩ := firstFree_eq_some hsome
        have hput := h.put hlo hhi hfree hc hnew
        refine ⟨fun t ht => ?_, fun t ht => ?_⟩
        · split at ht
          · obtain rfl := Outcome.next.inj ht
            exact hput.congr rfl rfl rfl
          · obtain rfl := Outcome.next.inj ht
            refine TableOk.readClients ?_ _ _
            exact hput.congr rfl rfl rfl
        · split at ht <;> cases ht
  · refine ⟨fun t ht => ?_, fun t ht => ?_⟩
    · obtain rfl := Outcome.next.inj ht
      exact h.readClients nready r
    · cases ht

/-- The table is kept in every run. -/
lemma Reach.table (h : Reach listenfd s) : TableOk listenfd s := by
  refine Reachable.invariant ?_ ?_ h
  · rintro s₀ ⟨garbage, rfl⟩
    exact tableOk_start garbage
  · rintro s t - hs ⟨p, r, hr, ht⟩
    exact ((hs.poll p).handle hr p.nready).1 t ht

/-- **The table at every call of `poll`.**  The listening descriptor is in entry 0.  The
descriptors in the other entries are the open connections, each in one entry, and none of these
is above `maxidx`, so that all of them are polled; the entries above it have -1.  A connection is
refused only when all the entries have open connections. -/
theorem tableOk_of_reach (h : Reach listenfd s) :
    TableOk listenfd s ∧
    (∀ i, 1 ≤ i → i < maxPollSize → 0 ≤ s.fds i → i ≤ s.maxidx) ∧
    (∀ p r t, Reply.Ok listenfd s.conns r → round listenfd s p r = .tooManyClients t →
      ∀ i, 1 ≤ i → i < maxPollSize → s.fds i ∈ s.conns) := by
  have htable := h.table
  refine ⟨htable, fun i hlo hhi hfd => ?_, fun p r t hr ht i hlo hhi => ?_⟩
  · by_contra hgt
    rw [htable.above i (by omega) hhi] at hfd
    exact absurd hfd (by decide)
  · have hocc := ((htable.poll p).handle hr p.nready).2 t ht i hlo hhi
    rw [fds_poll] at hocc
    exact htable.holds.mem i hlo hhi hocc

/-- The server in which one client was accepted. -/
theorem tableOk_oneClient :
    ∃ s, s.conns = {4} ∧ TableOk 3 s ∧
      (∀ i, 1 ≤ i → i < maxPollSize → 0 ≤ s.fds i → i ≤ s.maxidx) ∧
      (∀ p r t, Reply.Ok 3 s.conns r → round 3 s p r = .tooManyClients t →
        ∀ i, 1 ≤ i → i < maxPollSize → s.fds i ∈ s.conns) := by
  let start := State.start 3 fun _ => ⟨0, 0, 0⟩
  let r : Reply := ⟨.fd 4, fun _ => .closed⟩
  have hr : Reply.Ok 3 start.conns r := by
    refine ⟨fun c hc => ?_, fun fd bytes hread => by cases hread⟩
    obtain rfl : 4 = c := EpollServer.AcceptResult.fd.inj hc
    decide
  let p : PollResult := ⟨1, fun _ => pollrdnorm⟩
  let t : State := State.put { start.poll p with calls := [.accept 3], conns := insert 4 ∅ } 1 4
  have ht : round 3 start p r = .next t := by
    have hlisten : ((start.poll p).client 0).readable = true := by decide
    rw [round, handle, if_pos hlisten]
    rfl
  have hreach : Reach 3 t := (Reachable.of_init ⟨_, rfl⟩).tail ⟨p, r, hr, ht⟩
  exact ⟨t, rfl, tableOk_of_reach hreach⟩

end PollServer

end CppExample.Echo
