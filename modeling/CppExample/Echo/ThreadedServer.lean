/-
# The threaded echo server

The accept loop of `network/echo/d1_multi_thread_echo_server.cpp` and the threads that it
creates.  A thread is given the address of `clientfd`, a variable of the loop, and its first
step is to read it.  The next `accept`, also one that is interrupted, stores its result in the
same place, and so does one that fails, before the process ends.

Numbers of descriptors are reused once they are closed.  A descriptor therefore carries the
number of the connection that it was returned for, which is not in the program.

If nothing is stored while a thread has still to read the variable, then every connection is
served by one thread.  Otherwise one is never served: `served_of_prompt`.

The data that is echoed does not matter here, and `pthread_create` succeeds.
-/
import CppExample.Lib.Run
import CppExample.Lib.Threads

namespace CppExample.Echo.ThreadedServer
open Lib

/-- A descriptor that `accept` has returned, and the number of the connection. -/
structure Descriptor where
  fd : ℤ
  conn : ℕ
deriving DecidableEq, Repr

/-- The accept loop. -/
inductive Main where
  /-- At `accept`. -/
  | accepting
  /-- Before `pthread_create`. -/
  | creating
  /-- In `err_sys ("accept error")`. -/
  | failing
  | exited
deriving DecidableEq, Repr

/-- A thread that runs `str_echo`.  What it has read from the variable is `none` for -1. -/
inductive Handler where
  /-- Before its first step. -/
  | starting
  | serving (clientfd : Option Descriptor)
  /-- It has closed its descriptor. -/
  | done (clientfd : Option Descriptor)
deriving DecidableEq, Repr

/-- What the thread has read. -/
def Handler.read : Handler → Option (Option Descriptor)
  | starting => none
  | serving d | done d => some d

/-- The process. -/
structure State where
  main : Main
  /-- `clientfd` of the loop; `none` is -1, and what is there at first. -/
  cell : Option Descriptor
  handlers : List Handler
  /-- The open descriptors of clients. -/
  fds : Finset ℤ
  /-- What `accept` has returned so far. -/
  accepted : List Descriptor
deriving DecidableEq

/-- The process before the loop. -/
def State.start : State := ⟨.accepting, none, [], ∅, []⟩

/-- The descriptors that the threads have read, in the order of the threads. -/
def State.reads (s : State) : List (Option Descriptor) := s.handlers.filterMap Handler.read

/-- The threads that have not yet read the variable. -/
def State.starting (s : State) : ℕ := s.handlers.count .starting

/-- The step of a thread. -/
inductive Act where
  | accept (clientfd : ℤ)
  /-- `EINTR`. -/
  | interrupted
  /-- Another error. -/
  | failed
  | exit
  | create
  | start (i : ℕ)
  /-- The client is gone, or reading fails. -/
  | finish (i : ℕ)
deriving DecidableEq, Repr

/-- The steps of the accept loop, and of the threads; these end with the process. -/
inductive Step : Act → State → State → Prop
  | accept {s : State} {c : ℤ} (h : s.main = .accepting) (hc : 0 ≤ c) (hnew : c ∉ s.fds) :
      Step (.accept c) s { s with
        main := .creating
        cell := some ⟨c, s.accepted.length⟩
        fds := insert c s.fds
        accepted := s.accepted ++ [⟨c, s.accepted.length⟩] }
  | interrupted {s : State} (h : s.main = .accepting) : Step .interrupted s { s with cell := none }
  | failed {s : State} (h : s.main = .accepting) :
      Step .failed s { s with main := .failing, cell := none }
  | exit {s : State} (h : s.main = .failing) : Step .exit s { s with main := .exited }
  | create {s : State} (h : s.main = .creating) :
      Step .create s { s with main := .accepting, handlers := s.handlers ++ [.starting] }
  | start {s : State} {i : ℕ} (hm : s.main ≠ .exited) (h : s.handlers[i]? = some .starting) :
      Step (.start i) s { s with handlers := s.handlers.set i (.serving s.cell) }
  | finish {s : State} {i : ℕ} {d : Option Descriptor} (hm : s.main ≠ .exited)
      (h : s.handlers[i]? = some (.serving d)) :
      Step (.finish i) s { s with
        handlers := s.handlers.set i (.done d)
        fds := s.fds.filter fun fd => ∀ x, d = some x → fd ≠ x.fd }

/-- A step of some thread. -/
def Next (s t : State) : Prop := ∃ a, Step a s t

/-- `accept` returns, and its result is stored in the variable. -/
def Act.stores : Act → Bool
  | accept _ | interrupted | failed => true
  | _ => false

/-- A step that stores something only when all threads have read what was there before. -/
def PromptNext (s t : State) : Prop :=
  ∃ a, Step a s t ∧ (a.stores = true → s.starting = 0)

/-- The descriptors read by the threads are different. -/
def Distinct (s : State) : Prop := s.reads.Nodup

/-- Every connection has its thread, and all threads have started. -/
def AllStarted (s : State) : Prop := s.main ≠ .creating ∧ s.starting = 0

/-- Every descriptor is read by one thread. -/
def EachOnce (s : State) : Prop := ∀ d ∈ s.accepted, s.reads.count (some d) = 1

variable {s t : State} {a : Act}

/-! ## While the threads are prompt -/

/-- The connections that are still to be handed over, or whose thread has not yet started. -/
def State.pending (s : State) : ℕ := s.starting + if s.main = .creating then 1 else 0

/-- The descriptors are numbered in their order. -/
def Numbered (s : State) : Prop :=
  s.accepted.map Descriptor.conn = List.range s.accepted.length

/-- All descriptors have been read, or all but the one in the variable, whose connection is
pending. -/
def Account (s : State) : Prop :=
  s.pending = 0 ∧ (s.reads : Multiset (Option Descriptor)) = (s.accepted.map some : List _) ∨
  s.pending = 1 ∧ (s.reads : Multiset (Option Descriptor)) + {s.cell}
    = (s.accepted.map some : List _)

lemma Account.congr (h : Account s) (hpending : t.pending = s.pending) (hreads : t.reads = s.reads)
    (hcell : t.cell = s.cell) (haccepted : t.accepted = s.accepted) : Account t := by
  rw [Account, hpending, hreads, hcell, haccepted]
  exact h

lemma Numbered.nodup (h : Numbered s) : s.accepted.Nodup := by
  refine List.Nodup.of_map Descriptor.conn ?_
  rw [h]
  exact List.nodup_range

lemma Numbered.lt (h : Numbered s) {d : Descriptor} (hd : d ∈ s.accepted) :
    d.conn < s.accepted.length := by
  rw [← List.mem_range, ← h]
  exact List.mem_map_of_mem hd

/-- The next descriptor is a new one. -/
lemma Numbered.next_ne (h : Numbered s) {d : Descriptor} (hd : d ∈ s.accepted) (c : ℤ) :
    some ⟨c, s.accepted.length⟩ ≠ some d := by
  intro heq
  have hlt := h.lt hd
  rw [← Option.some.inj heq] at hlt
  exact lt_irrefl _ hlt

lemma Step.numbered (hst : Step a s t) (h : Numbered s) : Numbered t := by
  cases hst with
  | accept _ _ _ =>
    rw [Numbered, List.map_append, h, List.length_append, List.map_singleton, List.length_singleton,
      List.range_succ]
  | interrupted _ | failed _ | exit _ | create _ | start _ _ | finish _ _ => exact h

lemma starting_set {i : ℕ} {h h' : Handler} (hi : s.handlers[i]? = some h)
    (hne : h' ≠ .starting) :
    (s.handlers.set i h').count .starting + (if h = .starting then 1 else 0) = s.starting := by
  obtain ⟨hlt, heq⟩ := List.getElem?_eq_some_iff.1 hi
  rw [List.count_set hlt, heq, State.starting]
  by_cases hs : h = .starting
  · have hpos : 0 < s.handlers.count .starting :=
      List.count_pos_iff.2 (hs ▸ List.mem_of_getElem? hi)
    simp only [hs, hne, beq_self_eq_true, if_true, beq_iff_eq, if_false]
    omega
  · simp [hs, hne]

/-- The descriptor in the variable is read. -/
lemma coe_reads_start {i : ℕ} (h : s.handlers[i]? = some .starting) :
    ((s.handlers.set i (.serving s.cell)).filterMap Handler.read : Multiset (Option Descriptor))
      = (s.reads : Multiset (Option Descriptor)) + {s.cell} := by
  have hset := @filterMap_set_add _ _ Handler.read _ _ _ h (.serving s.cell)
  simpa [Handler.read, State.reads] using hset

lemma reads_finish {i : ℕ} {d : Option Descriptor} (h : s.handlers[i]? = some (.serving d)) :
    (s.handlers.set i (.done d)).filterMap Handler.read = s.reads :=
  filterMap_set_of_eq h rfl

lemma Account.reads_eq (h : Account s) (h0 : s.pending = 0) :
    (s.reads : Multiset (Option Descriptor)) = (s.accepted.map some : List _) := by
  rcases h with ⟨-, hall⟩ | ⟨h1, -⟩
  · exact hall
  · rw [h0] at h1
    cases h1

/-- When the result of `accept` is stored, nothing is pending. -/
lemma pending_of_accepting (h : s.main = .accepting) (h0 : s.starting = 0) : s.pending = 0 := by
  rw [State.pending, h0, h]
  rfl

/-- A step that stores something only when nothing is pending. -/
lemma Step.account (hst : Step a s t) (h : Account s) (hcond : a.stores = true → s.starting = 0) :
    Account t := by
  cases hst with
  | accept hm hc hnew =>
    have hall := h.reads_eq (pending_of_accepting hm (hcond rfl))
    refine Or.inr ⟨congrArg (· + 1) (hcond rfl), ?_⟩
    rw [List.map_append, ← Multiset.coe_add, ← hall]
    rfl
  | interrupted hm =>
    have h0 := pending_of_accepting hm (hcond rfl)
    exact Or.inl ⟨h0, h.reads_eq h0⟩
  | failed hm =>
    have h0 := pending_of_accepting hm (hcond rfl)
    exact Or.inl ⟨congrArg (· + 0) (hcond rfl), h.reads_eq h0⟩
  | exit hm =>
    refine h.congr ?_ rfl rfl rfl
    simp [State.pending, State.starting, hm]
  | create hm =>
    refine h.congr ?_ ?_ rfl rfl
    · simp [State.pending, State.starting, hm]
    · simp [State.reads, Handler.read]
  | @start _ i hm hi =>
    have hset := starting_set hi (show Handler.serving s.cell ≠ .starting by simp)
    rw [if_pos rfl] at hset
    rcases h with ⟨h0, -⟩ | ⟨h1, hall⟩
    · rw [State.pending] at h0
      omega
    · refine Or.inl ⟨?_, (coe_reads_start hi).trans hall⟩
      simp only [State.pending, State.starting] at h1 hset ⊢
      omega
  | @finish _ i d hm hi =>
    have hset := starting_set hi (show Handler.done d ≠ .starting by simp)
    rw [if_neg (by simp)] at hset
    refine h.congr ?_ (reads_finish hi) rfl rfl
    simp only [State.pending]
    rw [← hset]
    rfl

/-- The numbers and the account in a run in which all threads are prompt. -/
lemma numbered_account (h : Reachable (· = State.start) PromptNext s) :
    Numbered s ∧ Account s := by
  refine Reachable.invariant (I := fun s => Numbered s ∧ Account s) ?_ ?_ h
  · rintro s rfl
    exact ⟨rfl, Or.inl ⟨rfl, rfl⟩⟩
  · rintro s t - ⟨hnum, hacc⟩ ⟨a, hst, hcond⟩
    exact ⟨hst.numbered hnum, hst.account hacc hcond⟩

lemma Account.reads_nodup (h : Account s) (hnum : Numbered s) : s.reads.Nodup := by
  have hall : (s.accepted.map some).Nodup := hnum.nodup.map (Option.some_injective _)
  rw [← Multiset.coe_nodup] at hall ⊢
  rcases h with ⟨-, heq⟩ | ⟨-, heq⟩
  · rw [heq]
    exact hall
  · refine Multiset.nodup_of_le ?_ hall
    rw [← heq]
    exact Multiset.le_add_right _ _

lemma Account.each_once (h : Account s) (hnum : Numbered s) (hstarted : AllStarted s) :
    EachOnce s := by
  intro d hd
  have h0 : s.pending = 0 := by
    rw [State.pending, hstarted.2, if_neg hstarted.1]
  rw [(Multiset.coe_eq_coe.1 (h.reads_eq h0)).count_eq]
  exact List.count_eq_one_of_mem (hnum.nodup.map (Option.some_injective _))
    (List.mem_map_of_mem hd)

/-! ## A connection that is not served -/

/-- A descriptor has not been read, and it is not in the variable any more. -/
def Lost (d : Descriptor) (s : State) : Prop :=
  d ∈ s.accepted ∧ some d ∉ s.reads ∧ s.cell ≠ some d

lemma Step.lost {d : Descriptor} (hst : Step a s t) (hnum : Numbered s) (h : Lost d s) :
    Lost d t := by
  obtain ⟨hmem, hread, hcell⟩ := h
  cases hst with
  | accept hm hc hnew =>
    exact ⟨List.mem_append_left _ hmem, hread, hnum.next_ne hmem _⟩
  | interrupted hm | failed hm => exact ⟨hmem, hread, fun heq => nomatch heq⟩
  | exit hm => exact ⟨hmem, hread, hcell⟩
  | create hm => exact ⟨hmem, by simpa [State.reads, Handler.read] using hread, hcell⟩
  | @start _ i hm hi =>
    refine ⟨hmem, fun hin => ?_, hcell⟩
    rw [State.reads, ← Multiset.mem_coe, coe_reads_start hi, Multiset.mem_add] at hin
    rcases hin with hin | hin
    · exact hread hin
    · exact hcell (Multiset.mem_singleton.1 hin).symm
  | @finish _ i e hm hi =>
    refine ⟨hmem, fun hin => hread ?_, hcell⟩
    rw [← reads_finish hi]
    exact hin

/-- While a thread has still to start, the descriptor in the variable has not been read. -/
lemma Account.exists_unread (h : Account s) (hnum : Numbered s) (hpos : s.starting ≠ 0) :
    ∃ d ∈ s.accepted, some d ∉ s.reads := by
  have hpending : s.pending ≠ 0 := by
    rw [State.pending]
    omega
  obtain ⟨-, heq⟩ := h.resolve_left fun h0 => hpending h0.1
  have hcell : s.cell ∈ ((s.accepted.map some : List _) : Multiset (Option Descriptor)) := by
    rw [← heq]
    exact Multiset.mem_add.2 (Or.inr (Multiset.mem_singleton_self _))
  obtain ⟨d, hmem, hd⟩ := List.mem_map.1 (Multiset.mem_coe.1 hcell)
  refine ⟨d, hmem, fun hin => ?_⟩
  have hnd : ((s.accepted.map some : List _) : Multiset (Option Descriptor)).Nodup :=
    Multiset.coe_nodup.2 (hnum.nodup.map (Option.some_injective _))
  rw [← heq, Multiset.nodup_add] at hnd
  rw [hd] at hin
  exact Multiset.disjoint_left.1 hnd.2.2 hin (Multiset.mem_singleton_self _)

/-- A descriptor that is overwritten before it was read is lost. -/
lemma Step.exists_lost (hst : Step a s t) (hnum : Numbered s) (h : Account s)
    (hstores : a.stores = true) (hpos : s.starting ≠ 0) : ∃ d, Lost d t := by
  obtain ⟨d, hmem, hread⟩ := h.exists_unread hnum hpos
  refine ⟨d, ?_⟩
  cases hst with
  | accept hm hc hnew =>
    exact ⟨List.mem_append_left _ hmem, hread, hnum.next_ne hmem _⟩
  | interrupted hm | failed hm => exact ⟨hmem, hread, fun h' => nomatch h'⟩
  | exit _ | create _ | start _ _ | finish _ _ => cases hstores

/-- A lost connection stays so. -/
lemma lost_of_run {d : Descriptor} (h : Relation.ReflTransGen Next s t) (hnum : Numbered s)
    (hlost : Lost d s) : Lost d t := by
  have hboth : Numbered t ∧ Lost d t := by
    induction h with
    | refl => exact ⟨hnum, hlost⟩
    | tail _ hst ih =>
      obtain ⟨a, hst⟩ := hst
      exact ⟨hst.numbered ih.1, hst.lost ih.1 ih.2⟩
  exact hboth.2

/-- **Every connection is served once.**  As long as the result of `accept` is stored only when
all threads have read the one before, the descriptors that the threads read are different, and
every connection is served by one thread once all of them have started.  If a result is stored
earlier, then there is a connection that no thread ever serves. -/
theorem served_of_prompt (h : Reachable (· = State.start) PromptNext s) :
    Distinct s ∧ (AllStarted s → EachOnce s) ∧
    ∀ a t u, Step a s t → a.stores = true → s.starting ≠ 0 → Relation.ReflTransGen Next t u →
      ∃ d ∈ u.accepted, some d ∉ u.reads := by
  obtain ⟨hnum, hacc⟩ := numbered_account h
  refine ⟨hacc.reads_nodup hnum, hacc.each_once hnum, fun a t u hst hstores hpos hrun => ?_⟩
  obtain ⟨d, hlost⟩ := hst.exists_lost hnum hacc hstores hpos
  obtain ⟨hmem, hread, -⟩ := lost_of_run hrun (hst.numbered hnum) hlost
  exact ⟨d, hmem, hread⟩

/-- Two clients, whose threads read their descriptors at once. -/
theorem served_twoClients : ∃ s, s.accepted = [⟨4, 0⟩, ⟨5, 1⟩] ∧ Distinct s ∧ EachOnce s := by
  have h : Reachable (· = State.start) PromptNext State.start := .of_init rfl
  have h := h.tail ⟨.accept 4, .accept rfl (by decide) (by decide), fun _ => rfl⟩
  have h := h.tail ⟨.create, .create rfl, fun h => nomatch h⟩
  have h := h.tail ⟨.start 0, .start (by decide) rfl, fun h => nomatch h⟩
  have h := h.tail ⟨.accept 5, .accept rfl (by decide) (by decide), fun _ => rfl⟩
  have h := h.tail ⟨.create, .create rfl, fun h => nomatch h⟩
  have h := h.tail ⟨.start 1, .start (by decide) rfl, fun h => nomatch h⟩
  obtain ⟨hdistinct, honce, -⟩ := served_of_prompt h
  exact ⟨_, rfl, hdistinct, honce ⟨by decide, rfl⟩⟩

/-- The first thread starts after the second client was accepted: both threads serve the second
client, and nobody the first one. -/
theorem swappedClients :
    ∃ s, Reachable (· = State.start) Next s ∧ AllStarted s ∧
      s.accepted = [⟨4, 0⟩, ⟨5, 1⟩] ∧ s.reads = [some ⟨5, 1⟩, some ⟨5, 1⟩] ∧
      ¬ Distinct s ∧ ¬ EachOnce s := by
  have h₁ : Next State.start ⟨.creating, some ⟨4, 0⟩, [], {4}, [⟨4, 0⟩]⟩ :=
    ⟨.accept 4, .accept rfl (by decide) (by decide)⟩
  have h₂ : Next ⟨.creating, some ⟨4, 0⟩, [], {4}, [⟨4, 0⟩]⟩
      ⟨.accepting, some ⟨4, 0⟩, [.starting], {4}, [⟨4, 0⟩]⟩ := ⟨.create, .create rfl⟩
  have h₃ : Next ⟨.accepting, some ⟨4, 0⟩, [.starting], {4}, [⟨4, 0⟩]⟩
      ⟨.creating, some ⟨5, 1⟩, [.starting], {5, 4}, [⟨4, 0⟩, ⟨5, 1⟩]⟩ :=
    ⟨.accept 5, .accept rfl (by decide) (by decide)⟩
  have h₄ : Next ⟨.creating, some ⟨5, 1⟩, [.starting], {5, 4}, [⟨4, 0⟩, ⟨5, 1⟩]⟩
      ⟨.creating, some ⟨5, 1⟩, [.serving (some ⟨5, 1⟩)], {5, 4}, [⟨4, 0⟩, ⟨5, 1⟩]⟩ :=
    ⟨.start 0, .start (by decide) rfl⟩
  have h₅ : Next ⟨.creating, some ⟨5, 1⟩, [.serving (some ⟨5, 1⟩)], {5, 4}, [⟨4, 0⟩, ⟨5, 1⟩]⟩
      ⟨.accepting, some ⟨5, 1⟩, [.serving (some ⟨5, 1⟩), .starting], {5, 4},
        [⟨4, 0⟩, ⟨5, 1⟩]⟩ := ⟨.create, .create rfl⟩
  have h₆ : Next ⟨.accepting, some ⟨5, 1⟩, [.serving (some ⟨5, 1⟩), .starting], {5, 4},
        [⟨4, 0⟩, ⟨5, 1⟩]⟩
      ⟨.accepting, some ⟨5, 1⟩, [.serving (some ⟨5, 1⟩), .serving (some ⟨5, 1⟩)], {5, 4},
        [⟨4, 0⟩, ⟨5, 1⟩]⟩ := ⟨.start 1, .start (by decide) rfl⟩
  have hinit : Reachable (· = State.start) Next State.start := .of_init rfl
  refine ⟨_, (((((hinit.tail h₁).tail h₂).tail h₃).tail h₄).tail h₅).tail h₆, ⟨by decide, rfl⟩,
    rfl, rfl, ?_, ?_⟩
  · unfold Distinct
    decide
  · unfold EachOnce
    decide

end CppExample.Echo.ThreadedServer
