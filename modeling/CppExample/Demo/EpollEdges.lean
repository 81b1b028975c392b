/-
# Edge-triggered clients of the epoll demo server

The server of `EpollServer.lean` with the part of the kernel that decides what can still be
reported: how many bytes each client has sent that were not received, and which registrations
have an edge that `epoll_wait` has not reported.  Data that arrive and every successful
`epoll_ctl` set an edge; an edge-triggered registration is reported only if it has one.

A new client is registered edge-triggered.  Its only edge is used up when its event is put into
a batch.  The event is lost when `accept` fails before its turn, since the rest of the batch is
abandoned then, and it does no good when `recv` fails.  In all other cases no client with unread
bytes is forgotten: `remembers_of_clean`.
-/
import CppExample.Demo.EpollServer

namespace CppExample.Demo.EpollServer.Edges
open Lib
open C1000k (Event Reply epollMod_of_ne)

/-- The server and the kernel. -/
structure State where
  server : EpollServer.State
  /-- The number of bytes that a client has sent and the server has not received. -/
  unread : ℤ → ℕ
  /-- The descriptors with an edge that `epoll_wait` has not reported. -/
  edge : Finset ℤ

/-- What the environment contributes to a step. -/
inductive Input where
  /-- `n` bytes arrive from a client; none at the end of its stream. -/
  | arrive (fd : ℤ) (n : ℕ)
  /-- `epoll_wait` returns these events. -/
  | wait (events : List Event)
  /-- The kernel answers while an event is handled.  A client that is accepted has already
  sent `early` bytes. -/
  | handle (r : Reply) (early : ℕ)

variable (listenfd : ℤ)

/-- The system before the loop. -/
def State.start : State where
  server := EpollServer.State.start listenfd
  unread := fun _ => 0
  edge := ∅

/-- The unread bytes after an event was handled. -/
def State.unreadAfter (s : State) (e : Event) (r : Reply) (early : ℕ) : ℤ → ℕ :=
  if listenfd = e.fd then
    match r.accept with
    | none => s.unread
    | some clientfd => Function.update s.unread clientfd early
  else if e.epollin then
    match r.recv with
    | .data bytes => Function.update s.unread e.fd (s.unread e.fd - bytes.length)
    | _ => s.unread
  else s.unread

/-- The edges after an event was handled: `epoll_ctl` sets one. -/
def State.edgeAfter (s : State) (e : Event) (r : Reply) : Finset ℤ :=
  if listenfd = e.fd then
    match r.accept with
    | none => s.edge
    | some clientfd => insert clientfd s.edge
  else if e.epollin then
    match r.recv with
    | .data _ => insert e.fd s.edge
    | _ => s.edge
  else if e.epollout then insert e.fd s.edge
  else s.edge

/-- An event is handled, with `rest` behind it in the batch. -/
def State.handle (s : State) (e : Event) (rest : List Event) (r : Reply) (early : ℕ) : State where
  server := EpollServer.handle listenfd { s.server with batch := rest } e r
  unread := s.unreadAfter listenfd e r early
  edge := s.edgeAfter listenfd e r

/-- What `epoll_wait` may report: an edge-triggered registration only if it has an edge, and
`EPOLLIN` if there is something to read. -/
structure Reports (s : State) (events : List Event) : Prop where
  reportable : EpollServer.Reportable s.server events
  edge : ∀ e ∈ events, ∀ i, s.server.interest e.fd = some i → i.epollet = true → e.fd ∈ s.edge
  epollin : ∀ e ∈ events, ∀ i, s.server.interest e.fd = some i → i.epollin = true →
    0 < s.unread e.fd → e.epollin = true

/-- What the kernel may answer: `recv` returns bytes that were sent, and 0 only when all of them
were received.  `accept` and `recv` may fail. -/
structure Answers (s : State) (e : Event) (r : Reply) : Prop where
  answers : EpollServer.Answers listenfd s.server r
  data : ∀ bytes, r.recv = .data bytes → bytes.length ≤ s.unread e.fd
  eof : r.recv = .eof → s.unread e.fd = 0

/-- A step. -/
inductive Takes : Input → State → State → Prop
  | arrive {s : State} {fd : ℤ} {n : ℕ} (hfd : fd ∈ s.server.conns) :
      Takes (.arrive fd n) s { s with
        unread := Function.update s.unread fd (s.unread fd + n)
        edge := insert fd s.edge }
  | wait {s : State} {events : List Event} (hb : s.server.batch = []) (hev : Reports s events) :
      Takes (.wait events) s { s with
        server := { s.server with batch := events }
        edge := s.edge \ (events.map Event.fd).toFinset }
  | handle {s : State} {e : Event} {rest : List Event} {r : Reply} {early : ℕ}
      (hb : s.server.batch = e :: rest) (hr : Answers listenfd s e r) :
      Takes (.handle r early) s (s.handle listenfd e rest r early)

/-- Every client that has unread bytes and is registered for `EPOLLIN` is level-triggered or has
an edge. -/
def Remembers (s : State) : Prop :=
  ∀ c ∈ s.server.conns, 0 < s.unread c → ∀ i, s.server.interest c = some i → i.epollin = true →
    i.epollet = false ∨ c ∈ s.edge

/-- The client has unread bytes and is registered edge-triggered for `EPOLLIN`, without an
edge. -/
structure Waits (s : State) (c : ℤ) : Prop where
  conn : c ∈ s.server.conns
  unread : 0 < s.unread c
  interest : ∃ i, s.server.interest c = some i ∧ i.epollin = true ∧ i.epollet = true
  edge : c ∉ s.edge

/-- The step does not abandon or waste the event of a client that has no other edge. -/
def Clean (s : State) : Input → Prop
  | .handle r _ => ∀ e rest, s.server.batch = e :: rest →
      (e.fd = listenfd → r.accept = none → ∀ e' ∈ rest, ¬ Waits s e'.fd) ∧
      (e.fd ≠ listenfd → e.epollin = true → r.recv = .error → ¬ Waits s e.fd)
  | _ => True

/-- A clean step. -/
def CleanNext (s t : State) : Prop := ∃ i, Takes listenfd i s t ∧ Clean listenfd s i

variable {listenfd} {s t u : State} {c : ℤ} {e : Event} {rest : List Event} {r : Reply} {early : ℕ}

lemma remembers_iff : Remembers s ↔ ∀ c, ¬ Waits s c := by
  constructor
  · rintro h c ⟨hconn, hunread, ⟨i, hi, hin, het⟩, hedge⟩
    rcases h c hconn hunread i hi hin with hlevel | hmem
    · rw [het] at hlevel
      exact absurd hlevel (by decide)
    · exact hedge hmem
  · intro h c hconn hunread i hi hin
    by_contra hnot
    rw [not_or, Bool.not_eq_false] at hnot
    exact h c ⟨hconn, hunread, ⟨i, hi, hin, hnot.1⟩, hnot.2⟩

/-! ## Handling an event -/

/-- Nothing that decides whether the client waits has changed. -/
structure SameAt (s t : State) (c : ℤ) : Prop where
  conn : c ∈ t.server.conns ↔ c ∈ s.server.conns
  unread : t.unread c = s.unread c
  interest : t.server.interest c = s.server.interest c
  edge : c ∈ t.edge ↔ c ∈ s.edge

lemma SameAt.waits_iff (h : SameAt s t c) : Waits t c ↔ Waits s c := by
  constructor
  · rintro ⟨hconn, hunread, hinterest, hedge⟩
    rw [h.unread] at hunread
    rw [h.interest] at hinterest
    exact ⟨h.conn.1 hconn, hunread, hinterest, fun hmem => hedge (h.edge.2 hmem)⟩
  · rintro ⟨hconn, hunread, hinterest, hedge⟩
    rw [← h.unread] at hunread
    rw [← h.interest] at hinterest
    exact ⟨h.conn.2 hconn, hunread, hinterest, fun hmem => hedge (h.edge.1 hmem)⟩

/-- What handling an event does to the clients. -/
inductive Handled (listenfd : ℤ) (s : State) (e : Event) (rest : List Event) (r : Reply)
    (t : State) : Prop
  /-- `accept` has failed. -/
  | abandoned (hl : e.fd = listenfd) (haccept : r.accept = none) (hsame : ∀ c, SameAt s t c)
      (hb : t.server.batch = [])
  /-- A client was accepted and registered. -/
  | accepted {clientfd : ℤ} (hl : e.fd = listenfd) (haccept : r.accept = some clientfd)
      (hedge : clientfd ∈ t.edge) (hsame : ∀ c, c ≠ clientfd → SameAt s t c)
      (hb : t.server.batch = rest)
  /-- The registration of the client was modified. -/
  | modified (hl : e.fd ≠ listenfd) (hrecv : e.epollin = true → r.recv ≠ .error)
      (hedge : e.fd ∈ t.edge) (hconns : t.server.conns = s.server.conns)
      (hsame : ∀ c, c ≠ e.fd → SameAt s t c) (hb : t.server.batch = rest)
  /-- Nothing was received or sent. -/
  | idle (hl : e.fd ≠ listenfd) (hrecv : e.epollin = true → r.recv = .eof ∨ r.recv = .error)
      (hsame : ∀ c, SameAt s t c) (hb : t.server.batch = rest)

lemma handled_handle (s : State) (e : Event) (rest : List Event) (r : Reply) (early : ℕ) :
    Handled listenfd s e rest r (s.handle listenfd e rest r early) := by
  rw [State.handle, EpollServer.handle, State.unreadAfter, State.edgeAfter]
  by_cases hl : listenfd = e.fd
  · simp only [if_pos hl]
    cases haccept : r.accept with
    | none => exact .abandoned hl.symm haccept (fun c => ⟨Iff.rfl, rfl, rfl, Iff.rfl⟩) rfl
    | some clientfd =>
      refine .accepted hl.symm haccept (Finset.mem_insert_self _ _) (fun c hc => ?_) rfl
      exact ⟨Finset.mem_insert.trans (or_iff_right hc), Function.update_of_ne hc _ _,
        Function.update_of_ne hc _ _, Finset.mem_insert.trans (or_iff_right hc)⟩
  · have hl' : e.fd ≠ listenfd := fun h => hl h.symm
    simp only [if_neg hl]
    cases hin : e.epollin with
    | true =>
      simp only [if_true]
      cases hrecv : r.recv with
      | data bytes =>
        refine .modified hl' (fun _ => by rw [hrecv]; simp) (Finset.mem_insert_self _ _) rfl
          (fun c hc => ?_) rfl
        exact ⟨Iff.rfl, Function.update_of_ne hc _ _, epollMod_of_ne _ hc,
          Finset.mem_insert.trans (or_iff_right hc)⟩
      | eof => exact .idle hl' (fun _ => Or.inl hrecv) (fun c => ⟨Iff.rfl, rfl, rfl, Iff.rfl⟩) rfl
      | error => exact .idle hl' (fun _ => Or.inr hrecv) (fun c => ⟨Iff.rfl, rfl, rfl, Iff.rfl⟩) rfl
    | false =>
      simp only [Bool.false_eq_true, if_false]
      cases hout : e.epollout with
      | true =>
        simp only [if_true]
        refine .modified hl' (fun h => absurd (h.symm.trans hin) (by decide))
          (Finset.mem_insert_self _ _) rfl (fun c hc => ?_) rfl
        exact ⟨Iff.rfl, rfl, epollMod_of_ne _ hc, Finset.mem_insert.trans (or_iff_right hc)⟩
      | false =>
        simp only [Bool.false_eq_true, if_false]
        exact .idle hl' (fun h => absurd (h.symm.trans hin) (by decide))
          (fun c => ⟨Iff.rfl, rfl, rfl, Iff.rfl⟩) rfl

/-- A client that waits after an event was handled did so before.  If the event was its own and
had `EPOLLIN`, then `recv` has failed. -/
lemma Handled.waits (h : Handled listenfd s e rest r t) (hr : Answers listenfd s e r)
    (hw : Waits t c) :
    Waits s c ∧ (e.fd = c → e.fd ≠ listenfd → e.epollin = true → r.recv = .error) := by
  cases h with
  | abandoned hl _ hsame _ => exact ⟨(hsame c).waits_iff.1 hw, fun _ hne => absurd hl hne⟩
  | @accepted clientfd hl _ hedge hsame _ =>
    have hc : c ≠ clientfd := by
      rintro rfl
      exact hw.edge hedge
    exact ⟨(hsame c hc).waits_iff.1 hw, fun _ hne => absurd hl hne⟩
  | modified _ _ hedge _ hsame _ =>
    have hc : c ≠ e.fd := by
      rintro rfl
      exact hw.edge hedge
    exact ⟨(hsame c hc).waits_iff.1 hw, fun heq => absurd heq.symm hc⟩
  | idle _ hrecv hsame _ =>
    have hs := (hsame c).waits_iff.1 hw
    refine ⟨hs, fun heq _ hin => ?_⟩
    rcases hrecv hin with heof | herror
    · have hzero := hr.eof heof
      rw [heq] at hzero
      exact absurd hzero hs.unread.ne'
    · exact herror

/-- A client goes on waiting while the events of others are handled. -/
lemma Handled.waits_of_ne (h : Handled listenfd s e rest r t) (hr : Answers listenfd s e r)
    (hne : c ≠ e.fd) (hw : Waits s c) : Waits t c := by
  cases h with
  | abandoned _ _ hsame _ => exact (hsame c).waits_iff.2 hw
  | @accepted clientfd _ haccept _ hsame _ =>
    have hc : c ≠ clientfd := by
      rintro rfl
      exact (hr.answers.accept c haccept).2.2 hw.conn
    exact (hsame c hc).waits_iff.2 hw
  | modified _ _ _ _ hsame _ => exact (hsame c hne).waits_iff.2 hw
  | idle _ _ hsame _ => exact (hsame c).waits_iff.2 hw

/-! ## Clean runs -/

/-- The clients that wait have an event in the batch. -/
structure Inv (listenfd : ℤ) (s : State) : Prop where
  ne_listenfd : ∀ c ∈ s.server.conns, c ≠ listenfd
  pending : ∀ c, Waits s c → ∃ e ∈ s.server.batch, e.fd = c ∧ e.epollin = true
  nodup : (s.server.batch.map Event.fd).Nodup

lemma inv_start : Inv listenfd (State.start listenfd) := by
  refine ⟨fun c hc => ?_, fun c hc => ?_, List.nodup_nil⟩
  · exact absurd hc (Finset.notMem_empty c)
  · exact absurd hc.conn (Finset.notMem_empty c)

/-- Only a client that is accepted is new. -/
lemma Handled.ne_listenfd (h : Handled listenfd s e rest r t) (hr : Answers listenfd s e r)
    (hs : ∀ c ∈ s.server.conns, c ≠ listenfd) : ∀ c ∈ t.server.conns, c ≠ listenfd := by
  intro c hc
  cases h with
  | abandoned _ _ hsame _ => exact hs c ((hsame c).conn.1 hc)
  | @accepted clientfd _ haccept _ hsame _ =>
    by_cases hne : c = clientfd
    · rw [hne]
      exact (hr.answers.accept clientfd haccept).2.1
    · exact hs c ((hsame c hne).conn.1 hc)
  | modified _ _ _ hconns _ _ =>
    rw [hconns] at hc
    exact hs c hc
  | idle _ _ hsame _ => exact hs c ((hsame c).conn.1 hc)

/-- Of a batch that is handled, the rest stays, unless `accept` has failed. -/
lemma Handled.batch (h : Handled listenfd s e rest r t) :
    t.server.batch = rest ∨ t.server.batch = [] ∧ e.fd = listenfd ∧ r.accept = none := by
  cases h with
  | abandoned hl haccept _ hb => exact Or.inr ⟨hb, hl, haccept⟩
  | accepted _ _ _ _ hb => exact Or.inl hb
  | modified _ _ _ _ _ hb => exact Or.inl hb
  | idle _ _ _ hb => exact Or.inl hb

/-- A client that waits after an event was handled still has its event in the rest of the batch,
if the step was clean. -/
lemma Inv.handle (h : Inv listenfd s) (hb : s.server.batch = e :: rest)
    (hr : Answers listenfd s e r) (hclean : Clean listenfd s (.handle r early)) :
    Inv listenfd (s.handle listenfd e rest r early) := by
  have hstep := @handled_handle listenfd s e rest r early
  obtain ⟨hacc, hrecv⟩ := hclean e rest hb
  have hnodup := h.nodup
  rw [hb, List.map_cons, List.nodup_cons] at hnodup
  refine ⟨hstep.ne_listenfd hr h.ne_listenfd, fun c hc => ?_, ?_⟩
  · obtain ⟨hw, hown⟩ := hstep.waits hr hc
    obtain ⟨e', he', rfl, hin⟩ := h.pending c hw
    -- it is not the event that was handled
    have hrest : e' ∈ rest := by
      rw [hb] at he'
      rcases List.mem_cons.1 he' with rfl | he'
      · have hne := h.ne_listenfd e'.fd hw.conn
        exact absurd hw (hrecv hne hin (hown rfl hne hin))
      · exact he'
    rcases hstep.batch with hbatch | ⟨-, hl, hnone⟩
    · rw [hbatch]
      exact ⟨e', hrest, rfl, hin⟩
    · exact absurd hw (hacc hl hnone e' hrest)
  · rcases hstep.batch with hbatch | ⟨hbatch, -, -⟩
    · rw [hbatch]
      exact hnodup.2
    · rw [hbatch]
      exact List.nodup_nil

/-- The edges that are used up have their events in the batch. -/
lemma Inv.wait (h : Inv listenfd s) {events : List Event} (hb : s.server.batch = [])
    (hev : Reports s events) :
    Inv listenfd ⟨{ s.server with batch := events }, s.unread,
      s.edge \ (events.map Event.fd).toFinset⟩ := by
  refine ⟨h.ne_listenfd, fun c hc => ?_, hev.reportable.nodup⟩
  obtain ⟨hconn, hunread, ⟨i, hi, hin, het⟩, hedge⟩ := hc
  by_cases hmem : c ∈ s.edge
  · rw [Finset.mem_sdiff, not_and_not_right, List.mem_toFinset] at hedge
    obtain ⟨e, he, rfl⟩ := List.mem_map.1 (hedge hmem)
    exact ⟨e, he, rfl, hev.epollin e he i hi hin hunread⟩
  · obtain ⟨e, he, -⟩ := h.pending c ⟨hconn, hunread, ⟨i, hi, hin, het⟩, hmem⟩
    rw [hb] at he
    exact absurd he List.not_mem_nil

/-- Data that arrive give their client an edge, and say nothing about the others. -/
lemma sameAt_arrive {fd : ℤ} (n : ℕ) (hne : c ≠ fd) :
    SameAt s ⟨s.server, Function.update s.unread fd (s.unread fd + n), insert fd s.edge⟩ c :=
  ⟨Iff.rfl, Function.update_of_ne hne _ _, rfl, Finset.mem_insert.trans (or_iff_right hne)⟩

lemma Inv.arrive (h : Inv listenfd s) (fd : ℤ) (n : ℕ) :
    Inv listenfd ⟨s.server, Function.update s.unread fd (s.unread fd + n), insert fd s.edge⟩ := by
  refine ⟨h.ne_listenfd, fun c hc => ?_, h.nodup⟩
  have hne : c ≠ fd := by
    rintro rfl
    exact hc.edge (Finset.mem_insert_self _ _)
  exact h.pending c ((sameAt_arrive n hne).waits_iff.1 hc)

lemma CleanNext.inv (hst : CleanNext listenfd s t) (h : Inv listenfd s) : Inv listenfd t := by
  obtain ⟨i, hstep, hclean⟩ := hst
  cases hstep with
  | arrive _ => exact h.arrive _ _
  | wait hb hev => exact h.wait hb hev
  | handle hb hr => exact h.handle hb hr hclean

lemma inv_of_reachable (h : Reachable (· = State.start listenfd) (CleanNext listenfd) s) :
    Inv listenfd s := by
  refine Reachable.invariant ?_ ?_ h
  · rintro s rfl
    exact inv_start
  · intro s t _ hs hst
    exact hst.inv hs

/-! ## A step that is not clean -/

/-- The client waits, and no event of it is in the batch. -/
structure Forgotten (s : State) (c : ℤ) : Prop where
  waits : Waits s c
  batch : ∀ e ∈ s.server.batch, e.fd ≠ c

/-- Only data from the client itself would bring it back. -/
lemma Forgotten.step {i : Input} (h : Forgotten s c) (hst : Takes listenfd i s t)
    (hi : ∀ n, i ≠ .arrive c n) : Forgotten t c := by
  cases hst with
  | @arrive _ fd n _ =>
    have hne : c ≠ fd := by
      rintro rfl
      exact hi n rfl
    exact ⟨(sameAt_arrive n hne).waits_iff.2 h.waits, h.batch⟩
  | wait hb hev =>
    obtain ⟨hconn, hunread, ⟨i, hi, hin, het⟩, hedge⟩ := h.waits
    refine ⟨⟨hconn, hunread, ⟨i, hi, hin, het⟩, fun hmem => hedge (Finset.mem_sdiff.1 hmem).1⟩,
      fun e he => ?_⟩
    rintro rfl
    exact hedge (hev.edge e he i hi het)
  | @handle _ e rest r early hb hr =>
    have hstep := @handled_handle listenfd s e rest r early
    have hbatch := h.batch
    rw [hb] at hbatch
    have hne := hbatch e List.mem_cons_self
    refine ⟨hstep.waits_of_ne hr hne.symm h.waits, fun e' he' => ?_⟩
    rcases hstep.batch with heq | ⟨heq, -, -⟩
    · rw [heq] at he'
      exact hbatch e' (List.mem_cons_of_mem _ he')
    · rw [heq] at he'
      exact absurd he' List.not_mem_nil

/-- A step that is not clean leaves a client forgotten. -/
lemma Inv.exists_forgotten {i : Input} (h : Inv listenfd s) (hst : Takes listenfd i s t)
    (hnot : ¬ Clean listenfd s i) : ∃ c, Forgotten t c := by
  cases hst with
  | arrive _ => exact absurd trivial hnot
  | wait _ _ => exact absurd trivial hnot
  | @handle _ e rest r early hb hr =>
    have hstep := @handled_handle listenfd s e rest r early
    have hnodup := h.nodup
    rw [hb, List.map_cons, List.nodup_cons] at hnodup
    have hclean : ¬ ((e.fd = listenfd → r.accept = none → ∀ e' ∈ rest, ¬ Waits s e'.fd) ∧
        (e.fd ≠ listenfd → e.epollin = true → r.recv = .error → ¬ Waits s e.fd)) := by
      intro hboth
      refine hnot fun e' rest' hb' => ?_
      rw [hb, List.cons.injEq] at hb'
      obtain ⟨rfl, rfl⟩ := hb'
      exact hboth
    rw [not_and_or] at hclean
    rcases hclean with hacc | hrecv
    · -- the rest of the batch is abandoned
      push Not at hacc
      obtain ⟨hl, hnone, e', he', hw⟩ := hacc
      cases hstep with
      | abandoned _ _ hsame hbatch =>
        refine ⟨e'.fd, (hsame _).waits_iff.2 hw, fun e'' he'' => ?_⟩
        rw [hbatch] at he''
        exact absurd he'' List.not_mem_nil
      | accepted _ haccept _ _ _ =>
        rw [hnone] at haccept
        cases haccept
      | modified hl' _ _ _ _ _ => exact absurd hl hl'
      | idle hl' _ _ _ => exact absurd hl hl'
    · -- the event of the client is used up
      push Not at hrecv
      obtain ⟨hl, hin, herror, hw⟩ := hrecv
      cases hstep with
      | abandoned hl' _ _ _ => exact absurd hl' hl
      | accepted hl' _ _ _ _ => exact absurd hl' hl
      | modified _ hrecv' _ _ _ _ => exact absurd herror (hrecv' hin)
      | idle _ _ hsame hbatch =>
        refine ⟨e.fd, (hsame _).waits_iff.2 hw, fun e' he' heq => hnodup.1 ?_⟩
        rw [hbatch] at he'
        rw [← heq]
        exact List.mem_map_of_mem he'

/-- A client that was forgotten stays so until data arrive from it. -/
lemma Forgotten.run {inputs : List Input} (h : Forgotten s c)
    (hrun : Trace (Takes listenfd) s inputs t) (hi : ∀ n, Input.arrive c n ∉ inputs) :
    Forgotten t c := by
  induction hrun with
  | nil s => exact h
  | @cons s t u i inputs hst _ ih =>
    refine ih (h.step hst fun n heq => ?_) fun n hmem => hi n (List.mem_cons_of_mem _ hmem)
    exact hi n (heq ▸ List.mem_cons_self)

/-- **Clients that can be reported.**  In every run of clean steps, whenever the server is at
`epoll_wait`, each client that has unread bytes and is registered for `EPOLLIN` is registered
level-triggered or has an edge.  After a step that is not clean there is a client for which this
fails at every `epoll_wait`, until data arrive from it. -/
theorem remembers_of_clean (h : Reachable (· = State.start listenfd) (CleanNext listenfd) s) :
    (s.server.batch = [] → Remembers s) ∧
    ∀ i t, Takes listenfd i s t → ¬ Clean listenfd s i →
      ∃ c, ∀ inputs u, Trace (Takes listenfd) t inputs u → (∀ n, Input.arrive c n ∉ inputs) →
        u.server.batch = [] → ¬ Remembers u := by
  have hinv := inv_of_reachable h
  constructor
  · intro hb
    rw [remembers_iff]
    intro c hc
    obtain ⟨e, he, -⟩ := hinv.pending c hc
    rw [hb] at he
    exact absurd he List.not_mem_nil
  · intro i t hst hnot
    obtain ⟨c, hc⟩ := hinv.exists_forgotten hst hnot
    refine ⟨c, fun inputs u hrun hi _ hremembers => ?_⟩
    exact remembers_iff.1 hremembers c (hc.run hrun hi).waits

/-! ## A client whose event is abandoned -/

/-- A report of descriptors that have nothing to read but perhaps a pending connection. -/
lemma reports_of_edge {events : List Event} (hreg : ∀ e ∈ events, e.epollin = true ∧
      e.epollout = false ∧ ∃ i, s.server.interest e.fd = some i ∧ i.epollin = true ∧
        (i.epollet = true → e.fd ∈ s.edge))
    (hnodup : (events.map Event.fd).Nodup) (hlen : events.length ≤ 128) : Reports s events := by
  refine ⟨⟨fun e he => ?_, fun e he _ i hi => ?_, fun e he hout => ?_, hnodup, hlen⟩,
    fun e he i hi het => ?_, fun e he _ _ _ _ => (hreg e he).1⟩
  · obtain ⟨-, -, i, hi, -⟩ := hreg e he
    rw [hi]
    rfl
  · obtain ⟨-, -, i', hi', hin, -⟩ := hreg e he
    rw [hi, Option.some.injEq] at hi'
    rw [hi']
    exact hin
  · rw [(hreg e he).2.1] at hout
    exact absurd hout (by decide)
  · obtain ⟨-, -, i', hi', -, hedge⟩ := hreg e he
    rw [hi, Option.some.injEq] at hi'
    rw [hi'] at het
    exact hedge het

/-- A client has connected and sent ten bytes. -/
lemma exists_arrived :
    ∃ s, Reachable (· = State.start 3) (CleanNext 3) s ∧ s.server.batch = [] ∧
      s.server.conns = {5} ∧ s.unread 5 = 10 ∧ 5 ∈ s.edge ∧
      s.server.interest 3 = some ⟨true, false, false⟩ ∧
      s.server.interest 5 = some ⟨true, false, true⟩ := by
  have hev : Reports (State.start 3) [⟨3, true, false⟩] := by
    refine reports_of_edge (fun e he => ?_) (by decide) (by decide)
    obtain rfl := List.mem_singleton.1 he
    exact ⟨rfl, rfl, _, rfl, rfl, fun h => absurd h (by decide)⟩
  have hstart : Reachable (· = State.start 3) (CleanNext 3) (State.start 3) := .of_init rfl
  have hwait := hstart.tail ⟨_, Takes.wait rfl hev, trivial⟩
  have hr : ∀ (s : State) (e : Event), s.server.conns = ∅ →
      Answers 3 s e ⟨some 5, .error, 0⟩ := by
    intro s e hs
    refine ⟨⟨fun c hc => ?_, fun bytes h => (nomatch h)⟩, fun bytes h => (nomatch h),
      fun h => (nomatch h)⟩
    obtain rfl := Option.some.inj hc
    rw [hs]
    decide
  have haccept := hwait.tail ⟨.handle ⟨some 5, .error, 0⟩ 0, Takes.handle rfl (hr _ _ rfl), by
    rintro e rest hb
    obtain ⟨rfl, rfl⟩ := List.cons.inj hb
    exact ⟨fun _ h => (nomatch h), fun hne => absurd rfl hne⟩⟩
  have harrive := haccept.tail ⟨.arrive 5 10, Takes.arrive (by decide), trivial⟩
  exact ⟨_, harrive, rfl, by decide, rfl, by decide, rfl, rfl⟩

/-- `accept` fails while the event of the client is behind that of the listener.  Ten bytes are
unread then, and no event will report them. -/
theorem abandonedClient :
    ∃ s, Reachable (· = State.start 3) (fun s t => ∃ i, Takes 3 i s t) s ∧
      s.server.batch = [] ∧ ¬ Remembers s := by
  obtain ⟨s, hs, hb, hconns, hunread, hedge, hlisten, hclient⟩ := exists_arrived
  have hev : Reports s [⟨3, true, false⟩, ⟨5, true, false⟩] := by
    refine reports_of_edge (fun e he => ?_) (by decide) (by decide)
    rcases List.mem_pair.1 he with rfl | rfl
    · exact ⟨rfl, rfl, _, hlisten, rfl, fun h => absurd h (by decide)⟩
    · exact ⟨rfl, rfl, _, hclient, rfl, fun _ => hedge⟩
  have hreach := @Reachable.mono _ _ _ (fun s t => ∃ i, Takes 3 i s t)
    (fun _ _ ⟨i, hst, _⟩ => ⟨i, hst⟩) _ hs
  have hwait := hreach.tail ⟨_, Takes.wait hb hev⟩
  have hfail := hwait.tail ⟨.handle ⟨none, .error, 0⟩ 0, Takes.handle rfl
    ⟨⟨fun c h => (nomatch h), fun bytes h => (nomatch h)⟩, fun bytes h => (nomatch h),
      fun h => (nomatch h)⟩⟩
  refine ⟨_, hfail, rfl, fun hremembers => ?_⟩
  have hconn : 5 ∈ s.server.conns := by
    rw [hconns]
    exact Finset.mem_singleton_self 5
  have hpos : 0 < s.unread 5 := by omega
  rcases hremembers 5 hconn hpos _ hclient rfl with hlevel | hmem
  · exact absurd hlevel (by decide)
  · exact absurd (Finset.mem_sdiff.1 hmem).2 (by decide)

/-- The client that has connected and sent ten bytes can be reported. -/
theorem remembers_arrived :
    ∃ s, s.unread 5 = 10 ∧ Remembers s ∧
    ∀ i t, Takes 3 i s t → ¬ Clean 3 s i →
      ∃ c, ∀ inputs u, Trace (Takes 3) t inputs u → (∀ n, Input.arrive c n ∉ inputs) →
        u.server.batch = [] → ¬ Remembers u := by
  obtain ⟨s, hs, hb, -, hunread, -, -, -⟩ := exists_arrived
  obtain ⟨hremembers, hlost⟩ := remembers_of_clean hs
  exact ⟨s, hunread, hremembers hb, hlost⟩

end CppExample.Demo.EpollServer.Edges
