/-
# The echo server with a process for each client

The accept loop of `network/echo/d2_multi_process_echo_server.cpp`, its children, and `sig_chld`.
The parent accepts a connection, forks, and closes its own copy of the descriptor.  A child closes
the listening socket, runs `str_echo`, and exits, which closes its copy.

A connection is closed when the last process that has it open closes it.  What keeps a connection
from staying open is that nobody has a copy without using it: `Tidy`.  In particular no child has
a copy of the connection of another one, `Tidy.open_iff`.

`udp` is not a file of this server, but of the one in `network/udp`, whose children are the same.
What is echoed does not matter here.
-/
import CppExample.Lib.Run
import CppExample.Lib.Processes

namespace CppExample.Echo.ProcessServer
open Lib

/-- What a descriptor of the server is open for; connections are numbered as they are accepted. -/
inductive File where
  | listener
  | udp
  | conn (n : ℕ)
deriving DecidableEq, Repr

/-- Where a child is, with its variable `clientfd`. -/
inductive ChildPc where
  /-- Before `close (listenfd)`. -/
  | starting (clientfd : ℤ)
  /-- In `str_echo`. -/
  | serving (clientfd : ℤ)
deriving DecidableEq, Repr

def ChildPc.clientfd : ChildPc → ℤ
  | starting c | serving c => c

/-- The steps of a child. -/
inductive ChildAct (listenfd : ℤ) : ChildPc → FdTable File → Child ChildPc File → Prop
  | close {c : ℤ} {fds : FdTable File} :
      ChildAct listenfd (.starting c) fds (.running (.serving c) (fds.close listenfd))
  /-- `str_echo` has returned or failed; the child exits. -/
  | exit {c : ℤ} {fds : FdTable File} : ChildAct listenfd (.serving c) fds .zombie

/-- The parent and the children. -/
abbrev Procs := Processes ChildPc File

/-- What a descriptor of a child is open for: the connection that it serves. -/
def served (pc : ChildPc) (fds : FdTable File) : Option File := fds.file pc.clientfd

/-- A process has the file open. -/
def Open (p : Procs) (f : File) : Prop :=
  (∃ c, (c, f) ∈ p.fds) ∨
    ∃ (i : ℕ) (pc : ChildPc) (fds : FdTable File), p.children[i]? = some (.running pc fds) ∧
      ∃ c, (c, f) ∈ fds

/-- A child serves the connection. -/
def Serves (p : Procs) (n : ℕ) (i : ℕ) : Prop :=
  ∃ (pc : ChildPc) (fds : FdTable File), p.children[i]? = some (.running pc fds) ∧
    served pc fds = some (.conn n)

/-! ## Tables with at most one connection -/

/-- The table `base`, and the descriptor `c` for connection `n`. -/
structure Holds (base : FdTable File) (c : ℤ) (n : ℕ) (fds : FdTable File) : Prop where
  eq : fds = base ++ [(c, .conn n)]
  fresh : ∀ e ∈ base, e.1 ≠ c

/-- What a child has open: what it serves, and what was in the `base` of the parent, until it has
closed `listenfd`. -/
def ChildHolds (base : FdTable File) (listenfd : ℤ) (limit : ℕ) (pc : ChildPc)
    (fds : FdTable File) : Prop :=
  ∃ n, n < limit ∧
    match pc with
    | .starting c => Holds base c n fds
    | .serving c => Holds (base.close listenfd) c n fds

/-- Nobody has a connection open that it does not use.  The parent has `own` and perhaps one
connection, and the connections of the children have smaller numbers than `limit`. -/
structure Tidy (base own : FdTable File) (listenfd : ℤ) (held : Option (ℤ × ℕ)) (limit : ℕ)
    (p : Procs) : Prop where
  parent : p.fds = own ++ held.toList.map fun h => (h.1, .conn h.2)
  fresh : ∀ h ∈ held, ∀ e ∈ base, e.1 ≠ h.1
  own : own = base ∨ own = []
  children : p.Running (ChildHolds base listenfd limit)
  distinct : p.Distinct served

variable {base own : FdTable File} {listenfd c : ℤ} {n limit i j : ℕ} {fds : FdTable File}
  {pc : ChildPc} {held : Option (ℤ × ℕ)} {p q : Procs}

lemma Holds.file (h : Holds base c n fds) : fds.file c = some (.conn n) := by
  have hnone : base.find? (fun e => e.1 = c) = none := by
    rw [List.find?_eq_none]
    intro e he
    simpa using h.fresh e he
  rw [h.eq, FdTable.file, List.find?_append, hnone]
  simp

/-- The connection is the last entry. -/
lemma Holds.close_self (h : Holds base c n fds) : fds.close c = base := by
  have hbase : base.filter (fun e => e.1 ≠ c) = base := by
    rw [List.filter_eq_self]
    intro e he
    simpa using h.fresh e he
  rw [h.eq, FdTable.close, List.filter_append, hbase]
  simp

lemma Holds.close_other (h : Holds base c n fds) (hne : listenfd ≠ c) :
    Holds (base.close listenfd) c n (fds.close listenfd) := by
  refine ⟨?_, fun e he => h.fresh e (List.mem_of_mem_filter he)⟩
  rw [h.eq, FdTable.close, FdTable.close, List.filter_append]
  simp [hne.symm]

lemma ChildHolds.served (h : ChildHolds base listenfd limit pc fds) :
    ∃ n < limit, served pc fds = some (.conn n) := by
  obtain ⟨n, hn, h⟩ := h
  refine ⟨n, hn, ?_⟩
  cases pc with
  | starting c => exact Holds.file h
  | serving c => exact Holds.file h

/-- A child has no connection open but the one that it serves. -/
lemma ChildHolds.mem_iff (hbase : ∀ e ∈ base, ∀ n, e.2 ≠ .conn n)
    (h : ChildHolds base listenfd limit pc fds) :
    (∃ c, (c, .conn n) ∈ fds) ↔ ProcessServer.served pc fds = some (.conn n) := by
  obtain ⟨m, -, h⟩ := h
  have key : ∀ base' c, (∀ e ∈ base', ∀ n, e.2 ≠ File.conn n) → Holds base' c m fds →
      ((∃ d, (d, File.conn n) ∈ fds) ↔ fds.file c = some (.conn n)) := by
    intro base' c hb h
    rw [h.file, h.eq]
    constructor
    · rintro ⟨d, hd⟩
      rcases List.mem_append.1 hd with hd | hd
      · exact absurd rfl (hb _ hd n)
      · rw [List.mem_singleton, Prod.mk.injEq] at hd
        rw [hd.2]
    · intro heq
      refine ⟨c, ?_⟩
      rw [Option.some.injEq] at heq
      simp [heq]
  cases pc with
  | starting c => exact key _ c hbase h
  | serving c => exact key _ c (fun e he => hbase e (List.mem_of_mem_filter he)) h

/-! ## What the processes do with their tables -/

lemma ChildHolds.mono {limit' : ℕ} (hle : limit ≤ limit')
    (h : ChildHolds base listenfd limit pc fds) : ChildHolds base listenfd limit' pc fds := by
  obtain ⟨n, hn, h⟩ := h
  exact ⟨n, by omega, h⟩

lemma childAct_ne_reaped : ¬ ChildAct listenfd pc fds .reaped := by
  intro h
  cases h

/-- A child keeps what it serves. -/
lemma ChildAct.keeps (hl : ∃ f, (listenfd, f) ∈ base) {pc' : ChildPc} {fds' : FdTable File}
    (hact : ChildAct listenfd pc fds (.running pc' fds'))
    (h : ChildHolds base listenfd limit pc fds) :
    ChildHolds base listenfd limit pc' fds' ∧ ProcessServer.served pc' fds'
      = ProcessServer.served pc fds := by
  cases hact with
  | @close c =>
    obtain ⟨n, hn, h⟩ := h
    obtain ⟨f, hf⟩ := hl
    have hclose := Holds.close_other h (h.fresh _ hf)
    refine ⟨⟨n, hn, hclose⟩, ?_⟩
    rw [ProcessServer.served, ProcessServer.served]
    exact hclose.file.trans (Holds.file h).symm

/-- The steps outside the main program of the parent. -/
abbrev ProcStep (listenfd : ℤ) : Procs → Procs → Prop := Processes.Step (ChildAct listenfd)

namespace Tidy

lemma start (base : FdTable File) (listenfd : ℤ) :
    Tidy base base listenfd none 0 ⟨true, base, [], false, false, []⟩ :=
  ⟨by simp, by simp, .inl rfl, by simp [Processes.Running], by simp [Processes.Distinct]⟩

lemma mono {limit' : ℕ} (hle : limit ≤ limit') (h : Tidy base own listenfd held limit p) :
    Tidy base own listenfd held limit' p :=
  ⟨h.parent, h.fresh, h.own, fun i pc fds hi => (h.children i pc fds hi).mono hle, h.distinct⟩

lemma step (hl : ∃ f, (listenfd, f) ∈ base) (h : Tidy base own listenfd held limit p)
    (hst : ProcStep listenfd p q) : Tidy base own listenfd held limit q := by
  have hchildren := h.children.step (fun pc fds pc' fds' hact hc => (hact.keeps hl hc).1) hst
  have hdistinct := h.distinct.step (fun pc fds pc' fds' hact hc => (hact.keeps hl hc).2)
    h.children hst
  exact ⟨(Processes.step_fds hst).trans h.parent, h.fresh, h.own, hchildren, hdistinct⟩

lemma accept (h : Tidy base base listenfd none limit p) (hc : ∀ e ∈ p.fds, e.1 ≠ c) :
    Tidy base base listenfd (some (c, limit)) limit
      { p with fds := p.fds ++ [(c, .conn limit)] } := by
  have hfds : p.fds = base := by simpa using h.parent
  refine ⟨by simp [hfds], ?_, .inl rfl, h.children, h.distinct⟩
  rintro _ ⟨⟩ e he
  exact hc e (hfds ▸ he)

lemma holds (h : Tidy base base listenfd (some (c, n)) limit p) : Holds base c n p.fds :=
  ⟨by simpa using h.parent, fun e he => h.fresh _ rfl e he⟩

lemma fork (h : Tidy base base listenfd (some (c, n)) limit p) (hn : limit ≤ n) :
    Tidy base base listenfd (some (c, n)) (n + 1) (p.fork (.starting c)) := by
  have hnew : p.Running fun pc' fds' => served pc' fds' ≠ served (.starting c) p.fds := by
    intro i pc' fds' hi heq
    obtain ⟨m, hm, hserved⟩ := (h.children i pc' fds' hi).served
    have hfile : served (.starting c) p.fds = some (.conn n) := h.holds.file
    rw [hserved, hfile, Option.some.injEq, File.conn.injEq] at heq
    omega
  have hchildren : p.Running (ChildHolds base listenfd (n + 1)) := fun i pc fds hi =>
    (h.children i pc fds hi).mono (by omega)
  exact ⟨h.parent, h.fresh, h.own, hchildren.fork ⟨n, by omega, h.holds⟩, h.distinct.fork hnew⟩

lemma close (h : Tidy base base listenfd (some (c, n)) limit p) :
    Tidy base base listenfd none limit { p with fds := p.fds.close c } :=
  ⟨by simp [h.holds.close_self], by simp, .inl rfl, h.children, h.distinct⟩

lemma exit (h : Tidy base own listenfd held limit p) :
    Tidy base [] listenfd none limit p.exit :=
  ⟨rfl, by simp, .inr rfl, h.children, h.distinct⟩

/-- A connection is open if and only if the parent is about to hand it over or to close it, or a
child serves it. -/
theorem open_iff (hbase : ∀ e ∈ base, ∀ n, e.2 ≠ .conn n)
    (h : Tidy base own listenfd held limit p) (n : ℕ) :
    Open p (.conn n) ↔ (∃ c, held = some (c, n)) ∨ ∃ i, Serves p n i := by
  have hparent : (∃ c, (c, File.conn n) ∈ p.fds) ↔ ∃ c, held = some (c, n) := by
    have hown : ∀ c, (c, File.conn n) ∉ own := by
      intro c hc
      rcases h.own with rfl | rfl
      · exact hbase _ hc n rfl
      · cases hc
    rw [h.parent]
    cases held with
    | none => simp [hown]
    | some d => simp [hown, Prod.ext_iff, eq_comm]
  have hchild : (∃ (i : ℕ) (pc : ChildPc) (fds : FdTable File),
      p.children[i]? = some (.running pc fds) ∧ ∃ c, (c, File.conn n) ∈ fds) ↔
        ∃ i, Serves p n i := by
    refine exists_congr fun i => exists_congr fun pc => exists_congr fun fds => ?_
    exact and_congr_right fun hi => (h.children i pc fds hi).mem_iff hbase
  rw [Open, hparent, hchild]

lemma serves_inj (h : Tidy base own listenfd held limit p) (hi : Serves p n i)
    (hj : Serves p n j) : i = j := by
  obtain ⟨pc, fds, hi, hpc⟩ := hi
  obtain ⟨pc', fds', hj, hpc'⟩ := hj
  exact h.distinct i j pc pc' fds fds' hi hj (hpc.trans hpc'.symm)

end Tidy

/-- The tables, when the parent has ended or not, when it holds the connection of a descriptor, and
when this is still to be handed over. -/
structure Tables (base : FdTable File) (listenfd : ℤ) (exited : Bool) (holding : Option ℤ)
    (forking : Bool) (accepted : ℕ) (p : Procs) : Prop where
  tidy : Tidy base (if exited then [] else base) listenfd
    (holding.map fun c => (c, accepted - 1)) (if forking then accepted - 1 else accepted) p
  accepted : holding.isSome → 0 < accepted

namespace Tables

variable {accepted : ℕ} {exited forking : Bool} {holding : Option ℤ}

lemma step (hl : ∃ f, (listenfd, f) ∈ base)
    (h : Tables base listenfd exited holding forking accepted p) (hst : ProcStep listenfd p q) :
    Tables base listenfd exited holding forking accepted q :=
  ⟨h.tidy.step hl hst, h.accepted⟩

lemma accept (h : Tables base listenfd false none false accepted p)
    (hc : ∀ e ∈ p.fds, e.1 ≠ c) :
    Tables base listenfd false (some c) true (accepted + 1)
      { p with fds := p.fds ++ [(c, .conn accepted)] } :=
  ⟨h.tidy.accept hc, fun _ => Nat.succ_pos _⟩

lemma fork (h : Tables base listenfd false (some c) true accepted p) :
    Tables base listenfd false (some c) false accepted (p.fork (.starting c)) := by
  have hpos := h.accepted rfl
  have htidy := h.tidy.fork le_rfl
  rw [Nat.sub_add_cancel hpos] at htidy
  exact ⟨htidy, h.accepted⟩

/-- The connection is not handed over. -/
lemma forkFailed (h : Tables base listenfd false (some c) true accepted p) :
    Tables base listenfd false (some c) false accepted p :=
  ⟨h.tidy.mono (Nat.sub_le _ _), h.accepted⟩

lemma close (h : Tables base listenfd false (some c) false accepted p) :
    Tables base listenfd false none false accepted { p with fds := p.fds.close c } :=
  ⟨h.tidy.close, by simp⟩

lemma exit (h : Tables base listenfd exited holding forking accepted p) :
    Tables base listenfd true none false accepted p.exit := by
  have hle : (if forking then accepted - 1 else accepted) ≤ accepted := by
    split_ifs <;> omega
  exact ⟨h.tidy.exit.mono hle, by simp⟩

/-- A connection is open if and only if the parent holds it or a child serves it, and no two
children serve the same one. -/
lemma connection (hbase : ∀ e ∈ base, ∀ n, e.2 ≠ .conn n)
    (h : Tables base listenfd exited holding forking accepted p) (n : ℕ) :
    (Open p (.conn n) ↔
      (∃ c, holding = some c ∧ n + 1 = accepted) ∨ ∃ i, Serves p n i) ∧
    ∀ i j, Serves p n i → Serves p n j → i = j := by
  refine ⟨?_, fun i j hi hj => h.tidy.serves_inj hi hj⟩
  rw [h.tidy.open_iff hbase]
  have hheld : (∃ c, (holding.map fun c => (c, accepted - 1)) = some (c, n)) ↔
      ∃ c, holding = some c ∧ n + 1 = accepted := by
    refine exists_congr fun c => ?_
    have hpos := h.accepted
    cases holding with
    | none => simp
    | some d =>
      have := hpos rfl
      simp only [Option.map_some, Option.some.injEq, Prod.mk.injEq]
      constructor
      · rintro ⟨rfl, hn⟩
        exact ⟨rfl, by omega⟩
      · rintro ⟨rfl, hn⟩
        exact ⟨rfl, by omega⟩
  rw [hheld]

end Tables

/-! ## The server -/

/-- The accept loop, with `clientfd`. -/
inductive Main where
  /-- At `accept`. -/
  | accepting
  /-- Before `fork`. -/
  | forking (clientfd : ℤ)
  /-- Before `close (clientfd)`. -/
  | closing (clientfd : ℤ)
  /-- `err_sys ("accept error")` has ended the process. -/
  | exited
deriving DecidableEq, Repr

/-- The accept loop holds the connection of `clientfd`. -/
def Main.clientfd : Main → Option ℤ
  | forking c | closing c => some c
  | _ => none

/-- The connection is still to be handed over. -/
def Main.forks : Main → Bool
  | forking _ => true
  | _ => false

structure State where
  main : Main
  procs : Procs
  /-- The number of connections that were accepted. -/
  accepted : ℕ

/-- The server before its loop. -/
def State.start (listenfd : ℤ) : State :=
  ⟨.accepting, ⟨true, [(listenfd, .listener)], [], false, false, []⟩, 0⟩

/-- The steps of the accept loop, of the children, and of `sig_chld`. -/
inductive Step (listenfd : ℤ) : State → State → Prop
  | procs {s : State} {q : Procs} (h : ProcStep listenfd s.procs q) :
      Step listenfd s { s with procs := q }
  | accept {s : State} {c : ℤ} (hm : s.main = .accepting) (hh : s.procs.handling = false)
      (hc : 0 ≤ c) (hnew : ∀ e ∈ s.procs.fds, e.1 ≠ c) :
      Step listenfd s { s with
        main := .forking c
        procs := { s.procs with fds := s.procs.fds ++ [(c, .conn s.accepted)] }
        accepted := s.accepted + 1 }
  /-- `EINTR`, and `continue`. -/
  | interrupted {s : State} (hm : s.main = .accepting) (hh : s.procs.handling = false) :
      Step listenfd s s
  /-- Another error. -/
  | failed {s : State} (hm : s.main = .accepting) (hh : s.procs.handling = false) :
      Step listenfd s { s with main := .exited, procs := s.procs.exit }
  | fork {s : State} {c : ℤ} (hm : s.main = .forking c) (hh : s.procs.handling = false) :
      Step listenfd s { s with main := .closing c, procs := s.procs.fork (.starting c) }
  /-- `fork` returns -1, which is not 0. -/
  | forkFailed {s : State} {c : ℤ} (hm : s.main = .forking c) (hh : s.procs.handling = false) :
      Step listenfd s { s with main := .closing c }
  | close {s : State} {c : ℤ} (hm : s.main = .closing c) (hh : s.procs.handling = false) :
      Step listenfd s { s with
        main := .accepting
        procs := { s.procs with fds := s.procs.fds.close c } }

/-- What the parent has open besides a connection. -/
def baseOf (listenfd : ℤ) : FdTable File := [(listenfd, .listener)]

/-- The tables at each place of the accept loop. -/
def State.Tables (listenfd : ℤ) (s : State) : Prop :=
  ProcessServer.Tables (baseOf listenfd) listenfd (s.main = .exited) s.main.clientfd s.main.forks
    s.accepted s.procs

variable {s t : State}

lemma tables_step (hs : s.Tables listenfd) (h : Step listenfd s t) : t.Tables listenfd := by
  rw [State.Tables] at hs
  cases h with
  | procs h => exact hs.step ⟨.listener, List.mem_singleton_self _⟩ h
  | interrupted hm hh => exact hs
  | failed hm hh => exact hs.exit
  | accept hm hh hc hnew =>
    rw [hm] at hs
    exact hs.accept hnew
  | fork hm hh =>
    rw [hm] at hs
    exact hs.fork
  | forkFailed hm hh =>
    rw [hm] at hs
    exact hs.forkFailed
  | close hm hh =>
    rw [hm] at hs
    exact hs.close

lemma tables_of_reachable (h : Reachable (· = State.start listenfd) (Step listenfd) s) :
    s.Tables listenfd :=
  h.invariant (fun s₀ h₀ => by
    subst h₀
    exact ⟨Tidy.start _ _, by simp [State.start, Main.clientfd]⟩)
    fun _ _ _ hs hst => tables_step hs hst

/-- A connection is open if and only if it is the one that the accept loop has just accepted, or a
child serves it; and no two children serve the same one. -/
theorem connection_open_iff (h : Reachable (· = State.start listenfd) (Step listenfd) s) (n : ℕ) :
    (Open s.procs (.conn n) ↔
      (∃ c, s.main.clientfd = some c ∧ n + 1 = s.accepted) ∨ ∃ i, Serves s.procs n i) ∧
    ∀ i j, Serves s.procs n i → Serves s.procs n j → i = j :=
  (tables_of_reachable h).connection (by simp [baseOf]) n

/-- A run in which one client is accepted, on descriptor 4, and its child is in `str_echo`. -/
lemma sample_serving : Reachable (· = State.start 3) (Step 3)
    ⟨.accepting, ⟨true, [(3, .listener)], [.running (.serving 4) [(4, .conn 0)]], false, false, []⟩,
      1⟩ := by
  have h : Reachable (· = State.start 3) (Step 3) (State.start 3) := .of_init rfl
  have h := h.tail (.accept (c := 4) rfl rfl (by decide) (by simp [State.start]))
  have h := h.tail (.fork rfl rfl)
  have h := h.tail (.close rfl rfl)
  have h := h.tail (.procs (@Processes.Step.child _ _ _ _ 0 _ _ _ rfl .close))
  exact h

theorem connection_open_sample : ∃ p : Procs, Open p (.conn 0) :=
  ⟨_, ((connection_open_iff sample_serving 0).1).2 (.inr ⟨0, .serving 4, _, rfl, rfl⟩)⟩

/-! ## Zombies -/

lemma reaping_step (hs : s.procs.Reaping) (h : Step listenfd s t) : t.procs.Reaping := by
  cases h with
  | procs h => exact hs.step (fun _ _ => childAct_ne_reaped) h
  | accept hm hh hc hnew => exact hs.setFds _
  | interrupted hm hh => exact hs
  | failed hm hh => exact hs.exit
  | fork hm hh => exact hs.fork _
  | forkFailed hm hh => exact hs
  | close hm hh => exact hs.setFds _

/-- The parent is alive unless the accept loop has ended it. -/
lemma alive_of_reachable (h : Reachable (· = State.start listenfd) (Step listenfd) s) :
    s.main ≠ .exited → s.procs.alive = true := by
  refine h.invariant (I := fun s => s.main ≠ .exited → s.procs.alive = true) ?_ ?_
  · rintro s₀ rfl -
    rfl
  · intro s t _ hs hst
    cases hst with
    | procs h => exact fun hm => (Processes.step_alive h).trans (hs hm)
    | accept hm _ _ _ => exact fun _ => hs (by simp [hm])
    | interrupted hm _ => exact hs
    | failed hm _ => exact fun hne => absurd rfl hne
    | fork hm _ => exact fun _ => hs (by simp [hm])
    | forkFailed hm _ => exact fun _ => hs (by simp [hm])
    | close hm _ => exact fun _ => hs (by simp [hm])

/-- `waitpid` returns no child twice, and only children that have ended.  It has returned all of
them whenever no signal is pending and `sig_chld` is not running, however few the signals were. -/
theorem children_reaped (h : Reachable (· = State.start listenfd) (Step listenfd) s) :
    s.procs.waited.Nodup ∧ (∀ i ∈ s.procs.waited, s.procs.children[i]? = some .reaped) ∧
      (s.main ≠ .exited → s.procs.pending = false → s.procs.handling = false →
        ∀ i < s.procs.children.length,
          (∀ pc fds, s.procs.children[i]? ≠ some (.running pc fds)) → i ∈ s.procs.waited) := by
  have hs : s.procs.Reaping := by
    refine h.invariant (I := fun s => s.procs.Reaping) ?_ fun _ _ _ hs hst => reaping_step hs hst
    rintro s₀ rfl
    exact Processes.reaping_start _
  refine ⟨hs.nodup, fun i hi => (hs.waited i).1 hi, fun hm hp hh i hi hend => ?_⟩
  exact hs.mem_waited (alive_of_reachable h hm) hp hh hi hend

/-- The child exits, the signal is delivered, and `sig_chld` returns. -/
theorem children_reaped_sample : ∃ p : Procs, p.pending = false ∧ 0 ∈ p.waited := by
  have h := sample_serving
  have h := h.tail (.procs (@Processes.Step.child _ _ _ _ 0 _ _ _ rfl .exit))
  have h := h.tail (.procs (.deliver rfl rfl rfl))
  have h := h.tail (.procs (@Processes.Step.reap _ _ _ _ 0 rfl rfl rfl))
  have h := h.tail (.procs (.handled rfl rfl (by
    rintro (_ | i) <;> simp)))
  exact ⟨_, rfl, (children_reaped h).2.2 (by simp) rfl rfl 0 (by simp) (by simp)⟩

end CppExample.Echo.ProcessServer
