/-
# The echo server for TCP and UDP

The loop of `network/udp/d7_udp_tcp_select_echo_server.cpp`.  It waits with `select` for a
connection or a datagram.  For a connection it forks a child, as the server with processes does,
and a datagram it answers itself.

Three things are different from the server with processes.  The functions that it calls are
wrappers, so that a failure of `fork` ends it.  It may wait in `Accept` for a connection that is
gone, with a datagram to be answered.  And its children close the listening socket only: the UDP
socket stays open, and its port in use, until the last of them has ended, `sockets_open`.
-/
import CppExample.BasicLib.Readline
import CppExample.Echo.ProcessServer

namespace CppExample.Udp.TcpUdpServer
open Lib BasicLib
open Echo.ProcessServer (File ChildPc Procs ProcStep Open Serves Tidy ChildHolds Holds
  childAct_ne_reaped)

/-- The loop, with `connfd`, and whether `udpfd` is in `rset`. -/
inductive Main (A : Type) where
  /-- At `select`; both descriptors are in `rset`. -/
  | selecting
  /-- In `Accept`. -/
  | accepting (udp : Bool)
  /-- Before `Fork`. -/
  | forking (connfd : ℤ) (udp : Bool)
  /-- Before `Close (connfd)`. -/
  | closing (connfd : ℤ) (udp : Bool)
  /-- In `Recvfrom`. -/
  | receiving
  /-- Before `Sendto`, with `mesg` and `cliaddr`. -/
  | sending (mesg : List UInt8) (cliaddr : A)
  /-- `err_sys` has ended the process. -/
  | exited
deriving DecidableEq, Repr

variable {A : Type}

/-- What follows the part for TCP. -/
def Main.afterTcp (udp : Bool) : Main A := if udp then receiving else selecting

/-- The loop holds the connection of `connfd`. -/
def Main.connfd : Main A → Option ℤ
  | forking c _ | closing c _ => some c
  | _ => none

/-- The answer that is not yet sent. -/
def Main.answer : Main A → List (A × List UInt8)
  | sending mesg cliaddr => [(cliaddr, mesg)]
  | _ => []

/-- The server.  A datagram comes with the address of its sender. -/
structure State (A : Type) where
  main : Main A
  procs : Procs
  /-- The number of connections that were accepted. -/
  accepted : ℕ
  /-- The datagrams at `udpfd`. -/
  queue : List (A × List UInt8)
  /-- All datagrams that have come to `udpfd`. -/
  arrived : List (A × List UInt8)
  /-- All datagrams that were sent. -/
  sent : List (A × List UInt8)

/-- What is open before the loop. -/
def baseOf (listenfd udpfd : ℤ) : FdTable File := [(listenfd, .listener), (udpfd, .udp)]

/-- The server before its loop. -/
def State.start (A : Type) (listenfd udpfd : ℤ) : State A :=
  ⟨.selecting, ⟨true, baseOf listenfd udpfd, [], false, false, []⟩, 0, [], [], []⟩

/-- The steps of the loop, of the children, of `sig_chld`, and of the clients. -/
inductive Step (listenfd : ℤ) : State A → State A → Prop
  | procs {s : State A} {q : Procs} (h : ProcStep listenfd s.procs q) :
      Step listenfd s { s with procs := q }
  | arrive {s : State A} (d : A × List UInt8) :
      Step listenfd s { s with queue := s.queue ++ [d], arrived := s.arrived ++ [d] }
  | select {s : State A} {tcp udp : Bool} (hm : s.main = .selecting)
      (hh : s.procs.handling = false) (h : tcp || udp) :
      Step listenfd s { s with main := if tcp then .accepting udp else .afterTcp udp }
  /-- `EINTR`, and `continue`. -/
  | interrupted {s : State A} (hm : s.main = .selecting) (hh : s.procs.handling = false) :
      Step listenfd s s
  | accept {s : State A} {c : ℤ} {udp : Bool} (hm : s.main = .accepting udp)
      (hh : s.procs.handling = false) (hc : 0 ≤ c) (hnew : ∀ e ∈ s.procs.fds, e.1 ≠ c) :
      Step listenfd s { s with
        main := .forking c udp
        procs := { s.procs with fds := s.procs.fds ++ [(c, .conn s.accepted)] }
        accepted := s.accepted + 1 }
  /-- `ECONNABORTED` or `EPROTO`, and `goto again`. -/
  | aborted {s : State A} {udp : Bool} (hm : s.main = .accepting udp)
      (hh : s.procs.handling = false) : Step listenfd s s
  | fork {s : State A} {c : ℤ} {udp : Bool} (hm : s.main = .forking c udp)
      (hh : s.procs.handling = false) :
      Step listenfd s { s with main := .closing c udp, procs := s.procs.fork (.starting c) }
  | close {s : State A} {c : ℤ} {udp : Bool} (hm : s.main = .closing c udp)
      (hh : s.procs.handling = false) :
      Step listenfd s { s with
        main := .afterTcp udp
        procs := { s.procs with fds := s.procs.fds.close c } }
  | receive {s : State A} {cliaddr : A} {bytes : List UInt8} {rest : List (A × List UInt8)}
      (hm : s.main = .receiving) (hh : s.procs.handling = false)
      (hq : s.queue = (cliaddr, bytes) :: rest) :
      Step listenfd s { s with main := .sending (bytes.take maxline) cliaddr, queue := rest }
  | send {s : State A} {cliaddr : A} {mesg : List UInt8} (hm : s.main = .sending mesg cliaddr)
      (hh : s.procs.handling = false) :
      Step listenfd s { s with main := .selecting, sent := s.sent ++ [(cliaddr, mesg)] }
  /-- One of the calls fails, `fork` among them. -/
  | failed {s : State A} (hm : s.main ≠ .exited) (hh : s.procs.handling = false)
      (hc : ∀ c udp, s.main ≠ .closing c udp) :
      Step listenfd s { s with main := .exited, procs := s.procs.exit }

variable {listenfd udpfd : ℤ} {s t : State A}

/-! ## Datagrams -/

/-- The answer to a datagram; `Recvfrom` cuts it. -/
def answer (d : A × List UInt8) : A × List UInt8 := (d.1, d.2.take maxline)

/-- The answers in their order: sent, to be sent, and to be received. -/
def State.Answers (s : State A) : Prop :=
  s.sent <+: s.arrived.map answer ∧
    (s.main ≠ .exited → s.sent ++ s.main.answer ++ s.queue.map answer = s.arrived.map answer)

lemma answer_afterTcp (udp : Bool) : (Main.afterTcp udp : Main A).answer = [] := by
  cases udp <;> rfl

/-- A step that only changes where the loop is. -/
lemma State.Answers.move {main : Main A} {procs : Procs} {accepted : ℕ} (hs : s.Answers)
    (hne : s.main ≠ .exited) (heq : main.answer = s.main.answer) :
    ({ s with main := main, procs := procs, accepted := accepted } : State A).Answers :=
  ⟨hs.1, fun _ => by simpa [heq] using hs.2 hne⟩

lemma answers_step (hs : s.Answers) (h : Step listenfd s t) : t.Answers := by
  cases h with
  | procs h => exact hs
  | arrive d =>
    refine ⟨hs.1.trans ?_, fun hne => ?_⟩
    · rw [List.map_append]
      exact List.prefix_append _ _
    · have hold := hs.2 hne
      simp only [List.map_append, ← List.append_assoc]
      rw [hold]
  | @select tcp udp hm hh h =>
    refine hs.move (by simp [hm]) ?_
    cases tcp with
    | true => rw [hm]; rfl
    | false => rw [hm]; exact answer_afterTcp udp
  | interrupted hm hh => exact hs
  | accept hm hh hc hnew => exact hs.move (by simp [hm]) (by rw [hm]; rfl)
  | aborted hm hh => exact hs
  | fork hm hh => exact hs.move (by simp [hm]) (by rw [hm]; rfl)
  | @close c udp hm hh =>
    exact hs.move (by simp [hm]) (by rw [hm]; exact answer_afterTcp udp)
  | receive hm hh hq =>
    refine ⟨hs.1, fun _ => ?_⟩
    rw [← hs.2 (by simp [hm]), hm, hq]
    simp [Main.answer, answer]
  | send hm hh =>
    have hold := hs.2 (by simp [hm])
    rw [hm] at hold
    refine ⟨?_, fun _ => ?_⟩
    · rw [← hold, List.append_assoc]
      exact (List.prefix_append_right_inj _).2 (List.prefix_append _ _)
    · rw [← hold]
      simp [Main.answer]
  | failed hm hh hc => exact ⟨hs.1, fun hne => absurd rfl hne⟩

/-- Every datagram is answered at most once, to its sender, in the order in which they came, and
cut at `MAXLINE`.  While the server runs, the answers that are missing belong to the datagrams that
it has not yet received, and to one that it is about to answer. -/
theorem datagrams_answered (h : Reachable (· = State.start A listenfd udpfd) (Step listenfd) s) :
    s.sent <+: s.arrived.map answer ∧
      (s.main ≠ .exited →
        s.sent ++ s.main.answer ++ s.queue.map answer = s.arrived.map answer) := by
  refine h.invariant (I := State.Answers) ?_ fun _ _ _ hs hst => answers_step hs hst
  rintro s₀ rfl
  exact ⟨List.prefix_rfl, fun _ => rfl⟩

/-- A datagram is answered. -/
theorem datagrams_answered_sample : ∃ s : State ℕ,
    s.sent = [(7, [104, 105])] ∧ s.sent <+: s.arrived.map answer := by
  have h : Reachable (· = State.start ℕ 3 4) (Step 3) (State.start ℕ 3 4) := .of_init rfl
  have h := h.tail (.arrive (7, [104, 105]))
  have h := h.tail (@Step.select ℕ 3 _ false true rfl rfl rfl)
  have h := h.tail (.receive rfl rfl rfl)
  have h := h.tail (.send rfl rfl)
  exact ⟨_, rfl, (datagrams_answered h).1⟩

/-! ## What is open -/

/-- The connection is still to be handed over. -/
def Main.forks : Main A → Bool
  | forking _ _ => true
  | _ => false

/-- `err_sys` has ended the process. -/
def Main.isExited : Main A → Bool
  | exited => true
  | _ => false

/-- The tables at each place of the loop. -/
def State.Tables (listenfd udpfd : ℤ) (s : State A) : Prop :=
  Echo.ProcessServer.Tables (baseOf listenfd udpfd) listenfd s.main.isExited s.main.connfd
    s.main.forks s.accepted s.procs

lemma tables_step (hs : s.Tables listenfd udpfd) (h : Step listenfd s t) :
    t.Tables listenfd udpfd := by
  rw [State.Tables] at hs
  cases h with
  | procs h => exact hs.step ⟨.listener, by simp [baseOf]⟩ h
  | arrive d => exact hs
  | @select tcp udp hm hh h =>
    rw [hm] at hs
    cases tcp <;> cases udp <;> exact hs
  | interrupted hm hh => exact hs
  | accept hm hh hc hnew =>
    rw [hm] at hs
    exact hs.accept hnew
  | aborted hm hh => exact hs
  | fork hm hh =>
    rw [hm] at hs
    exact hs.fork
  | @close c udp hm hh =>
    rw [hm] at hs
    cases udp <;> exact hs.close
  | receive hm hh hq =>
    rw [hm] at hs
    exact hs
  | send hm hh =>
    rw [hm] at hs
    exact hs
  | failed hm hh hc => exact hs.exit

lemma tables_of_reachable (h : Reachable (· = State.start A listenfd udpfd) (Step listenfd) s) :
    s.Tables listenfd udpfd :=
  h.invariant (fun s₀ h₀ => by
    subst h₀
    exact ⟨Tidy.start _ _, by simp [State.start, Main.connfd]⟩)
    fun _ _ _ hs hst => tables_step hs hst

/-- What a child has open besides its connection. -/
lemma child_open_iff (hne : listenfd ≠ udpfd) {limit : ℕ} {pc : ChildPc} {fds : FdTable File}
    (h : ChildHolds (baseOf listenfd udpfd) listenfd limit pc fds) :
    (∃ c, (c, File.udp) ∈ fds) ∧
      ((∃ c, (c, File.listener) ∈ fds) ↔ ∃ c, pc = .starting c) := by
  obtain ⟨n, -, h⟩ := h
  cases pc with
  | starting c =>
    have hfds := Holds.eq h
    simp [hfds, baseOf]
  | serving c =>
    have hfds := Holds.eq h
    simp [hfds, baseOf, FdTable.close, hne.symm]

/-- A connection is open if and only if it is the one that the loop has just accepted, or one child
serves it.  The listening socket is open as long as the parent runs, or a child that has not yet
closed it.  The UDP socket is open as long as the parent or any child runs. -/
theorem sockets_open (hne : listenfd ≠ udpfd)
    (h : Reachable (· = State.start A listenfd udpfd) (Step listenfd) s) :
    (∀ n, Open s.procs (.conn n) ↔
      (∃ c, s.main.connfd = some c ∧ n + 1 = s.accepted) ∨ ∃ i, Serves s.procs n i) ∧
    (Open s.procs .listener ↔ s.main ≠ .exited ∨
      ∃ (i : ℕ) (c : ℤ) (fds : FdTable File),
        s.procs.children[i]? = some (.running (.starting c) fds)) ∧
    (Open s.procs .udp ↔ s.main ≠ .exited ∨
      ∃ (i : ℕ) (pc : ChildPc) (fds : FdTable File),
        s.procs.children[i]? = some (.running pc fds)) := by
  have hs := tables_of_reachable h
  have hexit : s.main.isExited = true ↔ s.main = .exited := by
    cases s.main <;> simp [Main.isExited]
  have hparent : ∀ f, f = File.listener ∨ f = File.udp →
      ((∃ c, (c, f) ∈ s.procs.fds) ↔ s.main ≠ .exited) := by
    intro f hf
    rw [hs.tidy.parent, ne_eq, ← hexit]
    cases s.main.isExited with
    | true =>
      cases s.main.connfd <;> rcases hf with rfl | rfl <;> simp
    | false =>
      cases s.main.connfd <;> rcases hf with rfl | rfl <;> simp [baseOf]
  refine ⟨fun n => (hs.connection (by simp [baseOf]) n).1, ?_, ?_⟩
  · rw [Open, hparent _ (.inl rfl)]
    refine or_congr_right ?_
    constructor
    · rintro ⟨i, pc, fds, hi, hf⟩
      obtain ⟨c, rfl⟩ := (child_open_iff hne (hs.tidy.children i pc fds hi)).2.1 hf
      exact ⟨i, c, fds, hi⟩
    · rintro ⟨i, c, fds, hi⟩
      exact ⟨i, _, fds, hi, (child_open_iff hne (hs.tidy.children i _ fds hi)).2.2 ⟨c, rfl⟩⟩
  · rw [Open, hparent _ (.inr rfl)]
    refine or_congr_right ?_
    constructor
    · rintro ⟨i, pc, fds, hi, -⟩
      exact ⟨i, pc, fds, hi⟩
    · rintro ⟨i, pc, fds, hi⟩
      exact ⟨i, pc, fds, hi, (child_open_iff hne (hs.tidy.children i pc fds hi)).1⟩

/-- The parent has failed while its child is in `str_echo`. -/
theorem sockets_open_sample : ∃ p : Procs, p.alive = false ∧ Open p .udp ∧ ¬ Open p .listener := by
  have h : Reachable (· = State.start ℕ 3 4) (Step 3) (State.start ℕ 3 4) := .of_init rfl
  have h := h.tail (@Step.select ℕ 3 _ true false rfl rfl rfl)
  have h := h.tail (.accept (c := 5) rfl rfl (by decide) (by simp [State.start, baseOf]))
  have h := h.tail (.fork rfl rfl)
  have h := h.tail (.close rfl rfl)
  have h := h.tail (.procs (@Processes.Step.child _ _ _ _ 0 _ _ _ rfl .close))
  have h := h.tail (.failed (by simp [Main.afterTcp]) rfl (by simp [Main.afterTcp]))
  obtain ⟨-, hlistener, hudp⟩ := sockets_open (by decide) h
  refine ⟨_, rfl, hudp.2 (.inr ⟨0, _, _, rfl⟩), fun hopen => ?_⟩
  rcases hlistener.1 hopen with hm | ⟨i, c, fds, hi⟩
  · exact hm rfl
  · cases i with
    | zero => simp [Processes.exit, Processes.fork, State.start] at hi
    | succ i => simp [Processes.exit, Processes.fork, State.start] at hi

/-! ## Zombies -/

lemma reaping_step (hs : s.procs.Reaping) (h : Step listenfd s t) : t.procs.Reaping := by
  cases h with
  | procs h => exact hs.step (fun _ _ => childAct_ne_reaped) h
  | arrive d => exact hs
  | select hm hh h => exact hs
  | interrupted hm hh => exact hs
  | accept hm hh hc hnew => exact hs.setFds _
  | aborted hm hh => exact hs
  | fork hm hh => exact hs.fork _
  | close hm hh => exact hs.setFds _
  | receive hm hh hq => exact hs
  | send hm hh => exact hs
  | failed hm hh hc => exact hs.exit

/-- The parent is alive unless its loop has ended it. -/
lemma alive_of_reachable (h : Reachable (· = State.start A listenfd udpfd) (Step listenfd) s) :
    s.main ≠ .exited → s.procs.alive = true := by
  refine h.invariant (I := fun s => s.main ≠ .exited → s.procs.alive = true) ?_ ?_
  · rintro s₀ rfl -
    rfl
  · intro s t _ hs hst
    cases hst with
    | procs h => exact fun hm => (Processes.step_alive h).trans (hs hm)
    | arrive d => exact hs
    | failed hm hh hc => exact fun hne => absurd rfl hne
    | interrupted hm hh | aborted hm hh => exact hs
    | select hm | accept hm | fork hm | close hm | receive hm | send hm =>
      exact fun _ => hs (by simp [hm])

/-- `waitpid` returns no child twice, and only children that have ended.  It has returned all of
them whenever no signal is pending and `sig_chld` is not running, whatever the loop does with
connections and datagrams. -/
theorem no_zombies (h : Reachable (· = State.start A listenfd udpfd) (Step listenfd) s) :
    s.procs.waited.Nodup ∧ (∀ i ∈ s.procs.waited, s.procs.children[i]? = some .reaped) ∧
      (s.main ≠ .exited → s.procs.pending = false → s.procs.handling = false →
        ∀ i < s.procs.children.length,
          (∀ pc fds, s.procs.children[i]? ≠ some (.running pc fds)) → i ∈ s.procs.waited) := by
  have hs : s.procs.Reaping := by
    refine h.invariant (I := fun s => s.procs.Reaping) ?_ fun _ _ _ hs hst => reaping_step hs hst
    rintro s₀ rfl
    exact Processes.reaping_start _
  refine ⟨hs.nodup, fun i hi => (hs.waited i).1 hi, fun hm hp hh i hi hend => ?_⟩
  exact hs.mem_waited (alive_of_reachable h hm) hp hh hi hend

/-- A child ends while the parent is about to receive a datagram, and is waited for. -/
theorem no_zombies_sample : ∃ s : State ℕ, s.main = .receiving ∧ 0 ∈ s.procs.waited := by
  have h : Reachable (· = State.start ℕ 3 4) (Step 3) (State.start ℕ 3 4) := .of_init rfl
  have h := h.tail (@Step.select ℕ 3 _ true true rfl rfl rfl)
  have h := h.tail (.accept (c := 5) rfl rfl (by decide) (by simp [State.start, baseOf]))
  have h := h.tail (.fork rfl rfl)
  have h := h.tail (.close rfl rfl)
  have h := h.tail (.procs (@Processes.Step.child _ _ _ _ 0 _ _ _ rfl .close))
  have h := h.tail (.procs (@Processes.Step.child _ _ _ _ 0 _ _ _ rfl .exit))
  have h := h.tail (.procs (.deliver rfl rfl rfl))
  have h := h.tail (.procs (@Processes.Step.reap _ _ _ _ 0 rfl rfl rfl))
  have h := h.tail (.procs (.handled rfl rfl (by
    rintro (_ | i) <;> simp [Processes.fork, State.start])))
  exact ⟨_, rfl, (no_zombies h).2.2 (by simp [Main.afterTcp]) rfl rfl 0 (by decide) (by
    simp [Processes.fork, State.start])⟩

end CppExample.Udp.TcpUdpServer
