/-
# The select demo server

The main loop of `network/demo2_select.cpp`.  `select` reports some of the descriptors that
are watched; the server accepts a connection if there is one, and then visits the
descriptors above `listenfd` in turn, reading before writing.  All clients share `buffer`
and `ret`, the result of the last `recv` or `send`.

When a client is gone, its descriptor is closed and taken out of `rfds_in`, but not out of
`wfds_in`: `setsOpen_iff_nothingPending`.  A client is sent the last message of all, with
the last result of all for a length: `echoes_of_ownReply`.

What the server prints is left out.
-/
import CppExample.C1000k.Echo

namespace CppExample.Demo.SelectServer
open Lib
open C1000k (RecvResult Act Unanswered sent received)

/-- `BUFFER_LENGTH`. -/
def bufferLength : ℕ := 128

/-- `FD_SET`; there is no result for a descriptor that a set cannot have. -/
def fdSet (fd : ℤ) (set : Finset ℤ) : Option (Finset ℤ) :=
  if 0 ≤ fd ∧ fd < 1024 then some (insert fd set) else none

/-- The server, with what the kernel knows of it. -/
structure State where
  rfdsIn : Finset ℤ
  wfdsIn : Finset ℤ
  rfdsOut : Finset ℤ
  wfdsOut : Finset ℤ
  lastfd : ℤ
  buffer : List UInt8
  ret : ℤ
  /-- `cur_fd`; none when the server is at `select`. -/
  curFd : Option ℤ
  /-- The accepted connections that have not been closed. -/
  conns : Finset ℤ
  /-- The calls on a connection since it was accepted. -/
  log : ℤ → List Act
  /-- The client whose message the last call of `recv` or `send` has received; none when that
  call has done something else. -/
  heard : Option ℤ

variable (listenfd : ℤ)

/-- The server before its loop. -/
def State.start : State where
  rfdsIn := {listenfd}
  wfdsIn := ∅
  rfdsOut := ∅
  wfdsOut := ∅
  lastfd := listenfd
  buffer := List.replicate bufferLength 0
  ret := 0
  curFd := none
  conns := ∅
  log _ := []
  heard := none

/-- The test of the inner loop. -/
def inRange (lastfd fd : ℤ) : Option ℤ := if fd ≤ lastfd then some fd else none

/-- `select` has returned with these sets.  If there is a new connection, `accept` returns
`clientfd`, -1 when it fails. -/
def selected (s : State) (rfdsOut wfdsOut : Finset ℤ) (clientfd : ℤ) : Option State :=
  let s := { s with rfdsOut := rfdsOut, wfdsOut := wfdsOut }
  if listenfd ∈ rfdsOut then do
    let rfdsIn ← fdSet clientfd s.rfdsIn
    let lastfd := if clientfd > s.lastfd then clientfd else s.lastfd
    some { s with
      rfdsIn := rfdsIn
      lastfd := lastfd
      curFd := inRange lastfd (listenfd + 1)
      conns := insert clientfd s.conns
      log := Function.update s.log clientfd [] }
  else some { s with curFd := inRange s.lastfd (listenfd + 1) }

/-- The answers of the kernel while a descriptor is visited. -/
structure Reply where
  recv : RecvResult
  /-- What `send` returns. -/
  send : ℤ
  /-- What is in the memory behind `buffer`. -/
  beyond : List UInt8
deriving DecidableEq, Repr

/-- The bytes that `send` is given.  A negative length is a very large one. -/
def given (s : State) (r : Reply) : List UInt8 :=
  if s.ret < 0 then s.buffer ++ r.beyond else s.buffer.take s.ret.toNat

/-- The body of the inner loop. -/
def visit (s : State) (fd : ℤ) (r : Reply) : Option State :=
  if fd ∈ s.rfdsOut then
    match r.recv with
    | .eof => some { s with
        ret := 0, conns := s.conns.erase fd, rfdsIn := s.rfdsIn.erase fd, heard := none }
    | .data bytes => do
      let wfdsIn ← fdSet fd s.wfdsIn
      some { s with
        ret := bytes.length
        buffer := bytes ++ s.buffer.drop bytes.length
        wfdsIn := wfdsIn
        log := Function.update s.log fd (s.log fd ++ [.recv bytes])
        heard := some fd }
    | .error => some { s with ret := -1, heard := none }
  else if fd ∈ s.wfdsOut then do
    let rfdsIn ← fdSet fd s.rfdsIn
    some { s with
      ret := r.send
      wfdsIn := s.wfdsIn.erase fd
      rfdsIn := rfdsIn
      log := Function.update s.log fd
        (s.log fd ++ [.send (given s r) ((given s r).take r.send.toNat)])
      heard := none }
  else some s

/-- What the kernel may answer: `recv` fills at most the buffer, and calls on a descriptor
that is not open fail. -/
structure Reply.Ok (s : State) (fd : ℤ) (r : Reply) : Prop where
  recv : ∀ bytes, r.recv = .data bytes → bytes ≠ [] ∧ bytes.length ≤ bufferLength
  send : r.send ≤ (given s r).length
  closed : fd ∉ s.conns → r.recv = .error ∧ r.send = -1

/-- What the kernel contributes to a step. -/
inductive Input where
  /-- The sets that `select` returns, and what `accept` returns. -/
  | select (rfdsOut wfdsOut : Finset ℤ) (clientfd : ℤ)
  /-- The answers while the next descriptor is visited. -/
  | visit (r : Reply)

/-- A step of the server. -/
inductive Takes : Input → State → State → Prop
  /-- `select` returns subsets of the sets it is given; a new descriptor is not open. -/
  | select {s t : State} {rfdsOut wfdsOut : Finset ℤ} {clientfd : ℤ} (hcur : s.curFd = none)
      (hr : rfdsOut ⊆ s.rfdsIn) (hw : wfdsOut ⊆ s.wfdsIn)
      (hnew : clientfd ≠ listenfd ∧ clientfd ∉ s.conns)
      (ht : selected listenfd s rfdsOut wfdsOut clientfd = some t) :
      Takes (.select rfdsOut wfdsOut clientfd) s t
  /-- The next descriptor is visited. -/
  | visit {s t : State} {fd : ℤ} {r : Reply} (hcur : s.curFd = some fd) (hr : r.Ok s fd)
      (ht : visit s fd r = some t) :
      Takes (.visit r) s { t with curFd := inRange t.lastfd (fd + 1) }

variable {listenfd} {s t : State} {fd : ℤ} {r : Reply}

/-! ## What a step can do -/

/-- What visiting a descriptor can do. -/
inductive Outcome (s : State) (fd : ℤ) (r : Reply) : State → Prop
  /-- The client is gone. -/
  | eof (hin : fd ∈ s.rfdsOut) (hr : r.recv = .eof) : Outcome s fd r { s with
      ret := 0, conns := s.conns.erase fd, rfdsIn := s.rfdsIn.erase fd, heard := none }
  /-- A message was received. -/
  | data {bytes : List UInt8} (hin : fd ∈ s.rfdsOut) (hr : r.recv = .data bytes) :
      Outcome s fd r { s with
        ret := bytes.length
        buffer := bytes ++ s.buffer.drop bytes.length
        wfdsIn := insert fd s.wfdsIn
        log := Function.update s.log fd (s.log fd ++ [.recv bytes])
        heard := some fd }
  /-- `recv` has failed. -/
  | error (hin : fd ∈ s.rfdsOut) : Outcome s fd r { s with ret := -1, heard := none }
  /-- Bytes were sent. -/
  | send (hin : fd ∉ s.rfdsOut) (hout : fd ∈ s.wfdsOut) : Outcome s fd r { s with
      ret := r.send
      wfdsIn := s.wfdsIn.erase fd
      rfdsIn := insert fd s.rfdsIn
      log := Function.update s.log fd
        (s.log fd ++ [.send (given s r) ((given s r).take r.send.toNat)])
      heard := none }
  /-- The descriptor was not reported. -/
  | idle (hin : fd ∉ s.rfdsOut) (hout : fd ∉ s.wfdsOut) : Outcome s fd r s

lemma fdSet_eq_some {set set' : Finset ℤ} (h : fdSet fd set = some set') :
    set' = insert fd set ∧ 0 ≤ fd ∧ fd < 1024 := by
  rw [fdSet] at h
  split at h
  · next hrange => exact ⟨(Option.some.inj h).symm, hrange⟩
  · cases h

lemma visit_outcome (h : visit s fd r = some t) : Outcome s fd r t := by
  rw [visit] at h
  split at h
  · next hin =>
    split at h
    · next hr =>
      obtain rfl := Option.some.inj h
      exact .eof hin hr
    · next bytes hr =>
      obtain ⟨wfdsIn, hset, ht⟩ := Option.bind_eq_some_iff.1 h
      obtain rfl := Option.some.inj ht
      obtain ⟨rfl, -⟩ := fdSet_eq_some hset
      exact .data hin hr
    · obtain rfl := Option.some.inj h
      exact .error hin
  · next hin =>
    split at h
    · next hout =>
      obtain ⟨rfdsIn, hset, ht⟩ := Option.bind_eq_some_iff.1 h
      obtain rfl := Option.some.inj ht
      obtain ⟨rfl, -⟩ := fdSet_eq_some hset
      exact .send hin hout
    · next hout =>
      obtain rfl := Option.some.inj h
      exact .idle hin hout

/-- What can happen between `select` and the first visit. -/
lemma selected_cases {rfdsOut wfdsOut : Finset ℤ} {clientfd : ℤ}
    (h : selected listenfd s rfdsOut wfdsOut clientfd = some t) :
    (∃ lastfd, s.lastfd ≤ lastfd ∧ clientfd ≤ lastfd ∧ t = { s with
      rfdsOut := rfdsOut
      wfdsOut := wfdsOut
      rfdsIn := insert clientfd s.rfdsIn
      lastfd := lastfd
      curFd := inRange lastfd (listenfd + 1)
      conns := insert clientfd s.conns
      log := Function.update s.log clientfd [] }) ∨
    t = { s with
      rfdsOut := rfdsOut, wfdsOut := wfdsOut, curFd := inRange s.lastfd (listenfd + 1) } := by
  simp only [selected] at h
  split at h
  · obtain ⟨rfdsIn, hset, ht⟩ := Option.bind_eq_some_iff.1 h
    obtain ⟨rfl, -⟩ := fdSet_eq_some hset
    refine Or.inl ⟨if clientfd > s.lastfd then clientfd else s.lastfd, ?_, ?_,
      (Option.some.inj ht).symm⟩
    · split <;> omega
    · split <;> omega
  · exact Or.inr (Option.some.inj h).symm

lemma inRange_eq_some {lastfd : ℤ} {c : ℤ} (h : inRange lastfd fd = some c) : c = fd := by
  rw [inRange] at h
  split at h
  · exact (Option.some.inj h).symm
  · cases h

/-- A visit leaves the sets that `select` has returned. -/
lemma Outcome.sets_eq (h : Outcome s fd r t) :
    t.rfdsOut = s.rfdsOut ∧ t.wfdsOut = s.wfdsOut ∧ t.lastfd = s.lastfd := by
  cases h <;> exact ⟨rfl, rfl, rfl⟩

/-- A visit concerns no other descriptor. -/
lemma Outcome.frame (h : Outcome s fd r t) {fd' : ℤ} (hne : fd' ≠ fd) :
    (fd' ∈ t.rfdsIn ↔ fd' ∈ s.rfdsIn) ∧ (fd' ∈ t.wfdsIn ↔ fd' ∈ s.wfdsIn) ∧
      (fd' ∈ t.conns ↔ fd' ∈ s.conns) ∧ t.log fd' = s.log fd' := by
  cases h with
  | eof hin hr => simp [hne]
  | data hin hr => simp [hne]
  | error hin => simp
  | send hin hout => simp [hne]
  | idle hin hout => simp

/-! ## The descriptors in the sets -/

/-- Every descriptor in `rfds_in` or `wfds_in` is open; every open connection is in `rfds_in`
and not greater than `lastfd`. -/
structure SetsOpen (listenfd : ℤ) (s : State) : Prop where
  rfdsIn : ∀ fd ∈ s.rfdsIn, fd = listenfd ∨ fd ∈ s.conns
  wfdsIn : ∀ fd ∈ s.wfdsIn, fd = listenfd ∨ fd ∈ s.conns
  conns : ∀ fd ∈ s.conns, fd ∈ s.rfdsIn ∧ fd ≤ s.lastfd

/-- If the step closes a client's descriptor, no answer to the client is pending. -/
def NothingPending (s : State) : Input → Prop
  | .select _ _ _ => True
  | .visit r => ∀ fd, s.curFd = some fd → fd ∈ s.rfdsOut → r.recv = .eof → fd ∉ s.wfdsIn

/-- The steps that meet the condition. -/
def CleanNext (listenfd : ℤ) (s t : State) : Prop :=
  ∃ i, Takes listenfd i s t ∧ NothingPending s i

/-- The descriptors that are still to be visited are where `select` has found them. -/
structure Ahead (listenfd : ℤ) (s : State) : Prop where
  above : ∀ c, s.curFd = some c → listenfd < c
  rfdsOut : ∀ c, s.curFd = some c → ∀ fd ∈ s.rfdsOut, c ≤ fd → fd ∈ s.rfdsIn
  wfdsOut : ∀ c, s.curFd = some c → ∀ fd ∈ s.wfdsOut, c ≤ fd → fd ∈ s.wfdsIn

lemma setsOpen_start : SetsOpen listenfd (State.start listenfd) := by
  refine ⟨fun fd hfd => Or.inl (Finset.mem_singleton.1 hfd), fun fd hfd => ?_, fun fd hfd => ?_⟩
  · exact absurd hfd (Finset.notMem_empty fd)
  · exact absurd hfd (Finset.notMem_empty fd)

lemma ahead_start : Ahead listenfd (State.start listenfd) := by
  refine ⟨?_, ?_, ?_⟩ <;> rintro c ⟨⟩

/-- A visit of a descriptor that is where `select` has found it. -/
lemma Outcome.setsOpen (h : Outcome s fd r t) (hs : SetsOpen listenfd s) (habove : listenfd < fd)
    (hrfds : fd ∈ s.rfdsOut → fd ∈ s.rfdsIn) (hwfds : fd ∈ s.wfdsOut → fd ∈ s.wfdsIn)
    (hclean : fd ∈ s.rfdsOut → r.recv = .eof → fd ∉ s.wfdsIn) : SetsOpen listenfd t := by
  have hne : fd ≠ listenfd := by omega
  cases h with
  | eof hin hr =>
    have hnot := hclean hin hr
    refine ⟨fun fd' hfd' => ?_, fun fd' hfd' => ?_, fun fd' hfd' => ?_⟩
    · obtain ⟨hne', hfd'⟩ := Finset.mem_erase.1 hfd'
      exact (hs.rfdsIn fd' hfd').imp_right fun h => Finset.mem_erase.2 ⟨hne', h⟩
    · have hne' : fd' ≠ fd := fun heq => hnot (heq ▸ hfd')
      exact (hs.wfdsIn fd' hfd').imp_right fun h => Finset.mem_erase.2 ⟨hne', h⟩
    · obtain ⟨hne', hfd'⟩ := Finset.mem_erase.1 hfd'
      obtain ⟨hmem, hle⟩ := hs.conns fd' hfd'
      exact ⟨Finset.mem_erase.2 ⟨hne', hmem⟩, hle⟩
  | data hin hr =>
    refine ⟨hs.rfdsIn, fun fd' hfd' => ?_, hs.conns⟩
    rcases Finset.mem_insert.1 hfd' with rfl | hfd'
    · exact hs.rfdsIn fd' (hrfds hin)
    · exact hs.wfdsIn fd' hfd'
  | error hin => exact ⟨hs.rfdsIn, hs.wfdsIn, hs.conns⟩
  | send hin hout =>
    refine ⟨fun fd' hfd' => ?_, fun fd' hfd' => ?_, fun fd' hfd' => ?_⟩
    · rcases Finset.mem_insert.1 hfd' with rfl | hfd'
      · exact hs.wfdsIn fd' (hwfds hout)
      · exact hs.rfdsIn fd' hfd'
    · exact hs.wfdsIn fd' (Finset.mem_of_mem_erase hfd')
    · obtain ⟨hmem, hle⟩ := hs.conns fd' hfd'
      exact ⟨Finset.mem_insert_of_mem hmem, hle⟩
  | idle hin hout => exact hs

/-- After a visit, the descriptors further up are where they were. -/
lemma Outcome.ahead (h : Outcome s fd r t) (hs : Ahead listenfd s) (hcur : s.curFd = some fd) :
    Ahead listenfd { t with curFd := inRange t.lastfd (fd + 1) } := by
  obtain ⟨hrfds, hwfds, -⟩ := h.sets_eq
  have habove := hs.above fd hcur
  refine ⟨fun c hc => ?_, fun c hc fd' hfd' hle => ?_, fun c hc fd' hfd' hle => ?_⟩
  · have hc' := inRange_eq_some hc
    omega
  · have hc' := inRange_eq_some hc
    refine (h.frame (by omega)).1.2 (hs.rfdsOut fd hcur fd' ?_ (by omega))
    rw [← hrfds]
    exact hfd'
  · have hc' := inRange_eq_some hc
    refine (h.frame (by omega)).2.1.2 (hs.wfdsOut fd hcur fd' ?_ (by omega))
    rw [← hwfds]
    exact hfd'

/-- A new round. -/
lemma setsOpen_selected {rfdsOut wfdsOut : Finset ℤ} {clientfd : ℤ} (hs : SetsOpen listenfd s)
    (hr : rfdsOut ⊆ s.rfdsIn) (hw : wfdsOut ⊆ s.wfdsIn)
    (h : selected listenfd s rfdsOut wfdsOut clientfd = some t) :
    SetsOpen listenfd t ∧ Ahead listenfd t := by
  rcases selected_cases h with ⟨lastfd, hlast, hclient, rfl⟩ | rfl
  · refine ⟨⟨fun fd hfd => ?_, fun fd hfd => ?_, fun fd hfd => ?_⟩, fun c hc => ?_, ?_, ?_⟩
    · rcases Finset.mem_insert.1 hfd with rfl | hfd
      · exact Or.inr (Finset.mem_insert_self _ _)
      · exact (hs.rfdsIn fd hfd).imp_right Finset.mem_insert_of_mem
    · exact (hs.wfdsIn fd hfd).imp_right Finset.mem_insert_of_mem
    · rcases Finset.mem_insert.1 hfd with rfl | hfd
      · exact ⟨Finset.mem_insert_self _ _, hclient⟩
      · obtain ⟨hmem, hle⟩ := hs.conns fd hfd
        exact ⟨Finset.mem_insert_of_mem hmem, hle.trans hlast⟩
    · have hc' := inRange_eq_some hc
      omega
    · exact fun c _ fd hfd _ => Finset.mem_insert_of_mem (hr hfd)
    · exact fun c _ fd hfd _ => hw hfd
  · refine ⟨⟨hs.rfdsIn, hs.wfdsIn, hs.conns⟩, fun c hc => ?_, ?_, ?_⟩
    · have hc' := inRange_eq_some hc
      omega
    · exact fun c _ fd hfd _ => hr hfd
    · exact fun c _ fd hfd _ => hw hfd

/-- A step that meets the condition keeps the sets in order. -/
lemma Takes.setsOpen {i : Input} (h : Takes listenfd i s t) (hs : SetsOpen listenfd s)
    (hahead : Ahead listenfd s) (hclean : NothingPending s i) :
    SetsOpen listenfd t ∧ Ahead listenfd t := by
  cases h with
  | select hcur hr hw hnew ht => exact setsOpen_selected hs hr hw ht
  | @visit _ t fd r hcur hr ht =>
    have hout := visit_outcome ht
    obtain ⟨hrfds, hwfds, hconns⟩ := hout.setsOpen hs (hahead.above fd hcur)
      (fun hin => hahead.rfdsOut fd hcur fd hin le_rfl)
      (fun hin => hahead.wfdsOut fd hcur fd hin le_rfl) (hclean fd hcur)
    exact ⟨⟨hrfds, hwfds, hconns⟩, hout.ahead hahead hcur⟩

/-- The descriptor is watched for writing although it has been closed, and is not visited
again in this round. -/
structure Stale (listenfd fd : ℤ) (s : State) : Prop where
  wfdsIn : fd ∈ s.wfdsIn
  conns : fd ∉ s.conns
  ne_listenfd : fd ≠ listenfd
  visited : ∀ c, s.curFd = some c → fd < c

lemma Stale.not_setsOpen (h : Stale listenfd fd s) : ¬ SetsOpen listenfd s := by
  intro hs
  rcases hs.wfdsIn fd h.wfdsIn with heq | hmem
  · exact h.ne_listenfd heq
  · exact h.conns hmem

/-- It remains so to the end of the round. -/
lemma Stale.visits (h : Stale listenfd fd s)
    (hrun : Relation.ReflTransGen (fun s t => ∃ r, Takes listenfd (.visit r) s t) s t) :
    Stale listenfd fd t := by
  induction hrun with
  | refl => exact h
  | tail _ hst ih =>
    obtain ⟨r, hst⟩ := hst
    cases hst with
    | @visit _ t c r hcur hr ht =>
      have hlt := ih.visited c hcur
      obtain ⟨-, hwfds, hconns, -⟩ := (visit_outcome ht).frame (show fd ≠ c by omega)
      refine ⟨hwfds.2 ih.wfdsIn, fun hmem => ih.conns (hconns.1 hmem), ih.ne_listenfd, ?_⟩
      intro c' hc'
      have hc'' := inRange_eq_some hc'
      omega

/-- A step that does not meet the condition leaves a closed descriptor behind. -/
lemma Takes.exists_stale {i : Input} (h : Takes listenfd i s t) (hahead : Ahead listenfd s)
    (hnot : ¬ NothingPending s i) : ∃ fd, Stale listenfd fd t := by
  cases h with
  | select hcur hr hw hnew ht => exact absurd trivial hnot
  | @visit _ t fd r hcur hr ht =>
    have hpending : fd ∈ s.rfdsOut ∧ r.recv = .eof ∧ fd ∈ s.wfdsIn := by
      by_contra hno
      refine hnot fun fd' hcur' hin heof hmem => hno ?_
      rw [hcur] at hcur'
      cases hcur'
      exact ⟨hin, heof, hmem⟩
    obtain ⟨hin, heof, hmem⟩ := hpending
    have habove := hahead.above fd hcur
    simp only [SelectServer.visit, hin, heof, if_true, Option.some.injEq] at ht
    subst ht
    refine ⟨fd, hmem, Finset.notMem_erase fd s.conns, by omega, fun c hc => ?_⟩
    have hc' := inRange_eq_some hc
    omega

/-- **When the sets are in order.**  In a run in which no answer is pending to a client whose
descriptor is closed, every descriptor in the sets is open, and every open connection is
watched; after a further step this is so if the step meets the condition, and otherwise it is
not so for the rest of the round, up to the next call of `select`. -/
theorem setsOpen_iff_nothingPending
    (h : Reachable (fun s => s = State.start listenfd) (CleanNext listenfd) s) :
    SetsOpen listenfd s ∧ ∀ i t, Takes listenfd i s t →
      (NothingPending s i → SetsOpen listenfd t) ∧
      (¬ NothingPending s i → ∀ u,
        Relation.ReflTransGen (fun s t => ∃ r, Takes listenfd (.visit r) s t) t u →
        ¬ SetsOpen listenfd u) := by
  have hinv : SetsOpen listenfd s ∧ Ahead listenfd s := by
    refine Reachable.invariant (I := fun s => SetsOpen listenfd s ∧ Ahead listenfd s) ?_ ?_ h
    · rintro s rfl
      exact ⟨setsOpen_start, ahead_start⟩
    · rintro s t - ⟨hs, hahead⟩ ⟨i, hst, hclean⟩
      exact hst.setsOpen hs hahead hclean
  obtain ⟨hs, hahead⟩ := hinv
  refine ⟨hs, fun i t hst => ⟨fun hclean => (hst.setsOpen hs hahead hclean).1, ?_⟩⟩
  intro hnot u hrun
  obtain ⟨fd, hstale⟩ := hst.exists_stale hahead hnot
  exact (hstale.visits hrun).not_setsOpen

/-- The answers when a descriptor that was not reported is visited. -/
def noReply : Reply := ⟨.error, -1, []⟩

lemma noReply_ok (s : State) (fd : ℤ) : noReply.Ok s fd := by
  refine ⟨?_, ?_, fun _ => ⟨rfl, rfl⟩⟩
  · rintro bytes ⟨⟩
  · exact (by decide : (-1 : ℤ) ≤ 0).trans (Int.natCast_nonneg _)

/-- The answers when a byte is received from a client. -/
lemma byte_ok {b : UInt8} (hfd : fd ∈ s.conns) : Reply.Ok s fd ⟨.data [b], -1, []⟩ := by
  refine ⟨?_, ?_, fun hnot => absurd hfd hnot⟩
  · rintro bytes ⟨⟩
    exact ⟨by simp, by simp [bufferLength]⟩
  · exact (by decide : (-1 : ℤ) ≤ 0).trans (Int.natCast_nonneg _)

/-- The client 4 comes, sends a byte, and is gone before it is answered. -/
def impatientClient : List Input :=
  [.select {3} ∅ 4, .visit noReply, .select {4} ∅ 0, .visit ⟨.data [97], -1, []⟩,
    .select {4} ∅ 0, .visit ⟨.eof, -1, []⟩]

/-- The closed descriptor 4 is still in `wfds_in` when `select` is called. -/
theorem closedDescriptor : ∃ s, Trace (Takes 3) (State.start 3) impatientClient s ∧
    s.curFd = none ∧ 4 ∉ s.conns ∧ 4 ∈ s.wfdsIn ∧ ¬ SetsOpen 3 s := by
  have hrun := Trace.cons (@Takes.select 3 (State.start 3) _ {3} ∅ 4 rfl (by decide) (by decide)
      (by decide) rfl)
    (.cons (.visit rfl (noReply_ok _ 4) rfl)
    (.cons (@Takes.select 3 _ _ {4} ∅ 0 rfl (by decide) (by decide) (by decide) rfl)
    (.cons (.visit rfl (byte_ok (b := 97) (by decide)) rfl)
    (.cons (@Takes.select 3 _ _ {4} ∅ 0 rfl (by decide) (by decide) (by decide) rfl)
    (.cons (@Takes.visit 3 _ _ 4 ⟨.eof, -1, []⟩ rfl
      ⟨by simp, by simp, fun h => absurd h (by decide)⟩ rfl)
    (.nil _))))))
  refine ⟨_, hrun, rfl, by decide, by decide, fun hs => ?_⟩
  exact absurd (hs.wfdsIn 4 (by decide)) (by decide)

/-- The client 4 has sent a byte, and is to be answered. -/
theorem setsOpen_oneClient : ∃ s,
    Reachable (fun s => s = State.start 3) (CleanNext 3) s ∧ s.curFd = none ∧ s.conns = {4} ∧
      s.wfdsIn = {4} ∧ SetsOpen 3 s := by
  have h₀ : Reachable (fun s => s = State.start 3) (CleanNext 3) (State.start 3) := .of_init rfl
  have h₁ := h₀.tail ⟨_, @Takes.select 3 (State.start 3) _ {3} ∅ 4 rfl (by decide) (by decide)
    (by decide) rfl, trivial⟩
  have h₂ := h₁.tail ⟨_, .visit rfl (noReply_ok _ 4) rfl, fun _ _ _ heof => by cases heof⟩
  have h₃ := h₂.tail ⟨_, @Takes.select 3 _ _ {4} ∅ 0 rfl (by decide) (by decide) (by decide) rfl,
    trivial⟩
  have hreach := h₃.tail ⟨_, .visit rfl (byte_ok (b := 97) (by decide)) rfl,
    fun _ _ _ heof => by cases heof⟩
  exact ⟨_, hreach, rfl, rfl, rfl, (setsOpen_iff_nothingPending hreach).1⟩

/-! ## What the clients are sent -/

/-- A `send` to a client transfers all the bytes that it is given. -/
def FullSend (s : State) : Input → Prop
  | .select _ _ _ => True
  | .visit r => ∀ fd, s.curFd = some fd → fd ∉ s.rfdsOut → fd ∈ s.wfdsOut → fd ∈ s.conns →
      r.send = (given s r).length

/-- If the next visit sends something to a client, the last call of `recv` or `send` has
received a message of this client, and all its other messages were answered before. -/
def OwnReply (s : State) : Prop :=
  ∀ fd, s.curFd = some fd → fd ∉ s.rfdsOut → fd ∈ s.wfdsOut → fd ∈ s.conns →
    s.heard = some fd ∧ ∀ l bytes, s.log fd = l ++ [.recv bytes] → ¬ Unanswered l

/-- The steps, with full sends, that meet the condition. -/
def OwnNext (listenfd : ℤ) (s t : State) : Prop :=
  ∃ i, Takes listenfd i s t ∧ FullSend s i ∧ OwnReply s

/-- What was sent is a prefix of what was received, and every answer is the last message. -/
structure Echoes (log : List Act) : Prop where
  sent_prefix_received : sent log <+: received log
  answer : ∀ l given transferred, l ++ [Act.send given transferred] <+: log →
    transferred = [] ∨ ∃ l', l = l' ++ [.recv transferred]

/-- All messages were answered up to the last answer. -/
def Settled (log : List Act) : Prop := ∀ l, l <+: log → ¬ Unanswered l → sent l = received l

/-- The invariant of the runs that meet the condition. -/
structure InTurn (s : State) : Prop where
  /-- The buffer begins with the message that was received last, and `ret` is its length. -/
  heard : ∀ fd, s.heard = some fd → fd ∈ s.conns ∧ ∃ l bytes, s.log fd = l ++ [.recv bytes] ∧
    s.ret = bytes.length ∧ bytes <+: s.buffer
  echoes : ∀ fd, Echoes (s.log fd)
  settled : ∀ fd ∈ s.conns, Settled (s.log fd)

lemma echoes_nil : Echoes [] := by
  refine ⟨List.prefix_rfl, fun l given transferred hpre => ?_⟩
  simp at hpre

lemma settled_nil : Settled [] := by
  intro l hl _
  rw [List.prefix_nil.1 hl]
  rfl

lemma inTurn_start : InTurn (State.start listenfd) := by
  refine ⟨fun fd hfd => ?_, fun _ => echoes_nil, fun _ _ => settled_nil⟩
  cases hfd

lemma Echoes.recv {log : List Act} (h : Echoes log) (bytes : List UInt8) :
    Echoes (log ++ [.recv bytes]) := by
  refine ⟨?_, fun l given transferred hpre => ?_⟩
  · rw [C1000k.sent_snoc, C1000k.received_snoc, Act.sent, List.append_nil]
    exact h.sent_prefix_received.trans (List.prefix_append _ _)
  · rcases List.prefix_concat_iff.1 hpre with heq | hpre
    · cases (List.append_inj' heq rfl).2
    · exact h.answer l given transferred hpre

lemma Settled.recv {log : List Act} (h : Settled log) (bytes : List UInt8) :
    Settled (log ++ [.recv bytes]) := by
  intro l hl hnot
  rcases List.prefix_concat_iff.1 hl with rfl | hl
  · exact absurd ⟨log, bytes, rfl⟩ hnot
  · exact h l hl hnot

/-- A message is answered. -/
lemma Echoes.send {l : List Act} {bytes : List UInt8} (h : Echoes (l ++ [Act.recv bytes]))
    (hset : Settled (l ++ [Act.recv bytes])) (hnot : ¬ Unanswered l) :
    Echoes (l ++ [Act.recv bytes] ++ [Act.send bytes bytes]) ∧
      Settled (l ++ [Act.recv bytes] ++ [Act.send bytes bytes]) := by
  have hbefore : sent l = received l := hset l (List.prefix_append _ _) hnot
  have hall : sent (l ++ [Act.recv bytes] ++ [Act.send bytes bytes])
      = received (l ++ [Act.recv bytes] ++ [Act.send bytes bytes]) := by
    rw [C1000k.sent_snoc, C1000k.sent_snoc, C1000k.received_snoc, C1000k.received_snoc, hbefore]
    simp [Act.sent, Act.received]
  refine ⟨⟨by rw [hall], fun l' given transferred hpre => ?_⟩, fun l' hl' hnot' => ?_⟩
  · rcases List.prefix_concat_iff.1 hpre with heq | hpre
    · obtain ⟨rfl, hlast⟩ := List.append_inj' heq rfl
      cases hlast
      exact Or.inr ⟨l, rfl⟩
    · exact h.answer l' given transferred hpre
  · rcases List.prefix_concat_iff.1 hl' with rfl | hl'
    · exact hall
    · exact hset l' hl' hnot'

/-- A `send` on a descriptor that is not open. -/
lemma Echoes.send_nil {log : List Act} (h : Echoes log) (given : List UInt8) :
    Echoes (log ++ [.send given []]) := by
  refine ⟨?_, fun l given' transferred hpre => ?_⟩
  · rw [C1000k.sent_snoc, C1000k.received_snoc]
    simpa [Act.sent, Act.received] using h.sent_prefix_received
  · rcases List.prefix_concat_iff.1 hpre with heq | hpre
    · obtain ⟨-, hlast⟩ := List.append_inj' heq rfl
      cases hlast
      exact Or.inl rfl
    · exact h.answer l given' transferred hpre

/-- A visit with a full send that meets the condition. -/
lemma Outcome.inTurn (h : Outcome s fd r t) (hs : InTurn s) (hr : r.Ok s fd)
    (hfull : fd ∉ s.rfdsOut → fd ∈ s.wfdsOut → fd ∈ s.conns → r.send = (given s r).length)
    (hown : fd ∉ s.rfdsOut → fd ∈ s.wfdsOut → fd ∈ s.conns →
      s.heard = some fd ∧ ∀ l bytes, s.log fd = l ++ [.recv bytes] → ¬ Unanswered l) :
    InTurn t := by
  cases h with
  | eof hin _ =>
    refine ⟨?_, hs.echoes, fun fd' hfd' => hs.settled fd' (Finset.mem_of_mem_erase hfd')⟩
    rintro fd' ⟨⟩
  | @data bytes hin hrecv =>
    have hopen : fd ∈ s.conns := by
      by_contra hnot
      rw [(hr.closed hnot).1] at hrecv
      cases hrecv
    refine ⟨?_, (Function.forall_update_iff _ fun _ => Echoes).2
        ⟨(hs.echoes fd).recv bytes, fun fd' _ => hs.echoes fd'⟩,
      (Function.forall_update_iff _ fun fd log => fd ∈ s.conns → Settled log).2
        ⟨fun _ => (hs.settled fd hopen).recv bytes, fun fd' _ => hs.settled fd'⟩⟩
    rintro fd' ⟨⟩
    refine ⟨hopen, s.log fd, bytes, ?_, rfl, List.prefix_append _ _⟩
    exact Function.update_self _ _ _
  | error hin =>
    refine ⟨?_, hs.echoes, hs.settled⟩
    rintro fd' ⟨⟩
  | send hin hout =>
    -- the answer is the message, or nothing when the descriptor is not open
    have hlog : Echoes (s.log fd ++ [.send (given s r) ((given s r).take r.send.toNat)]) ∧
        (fd ∈ s.conns →
          Settled (s.log fd ++ [.send (given s r) ((given s r).take r.send.toNat)])) := by
      by_cases hopen : fd ∈ s.conns
      · obtain ⟨hheard, hothers⟩ := hown hin hout hopen
        obtain ⟨-, l, bytes, hlog, hret, hbuf⟩ := hs.heard fd hheard
        have hgiven : given s r = bytes := by
          rw [given, if_neg (by omega), hret, Int.toNat_natCast]
          exact (List.prefix_iff_eq_take.1 hbuf).symm
        have htake : (given s r).take r.send.toNat = bytes := by
          rw [hfull hin hout hopen, Int.toNat_natCast, List.take_length, hgiven]
        have hecho := hs.echoes fd
        have hset := hs.settled fd hopen
        rw [htake, hgiven, hlog]
        rw [hlog] at hecho hset
        obtain ⟨hecho', hset'⟩ := hecho.send hset (hothers l bytes hlog)
        exact ⟨hecho', fun _ => hset'⟩
      · rw [(hr.closed hopen).2]
        exact ⟨(hs.echoes fd).send_nil _, fun hopen' => absurd hopen' hopen⟩
    refine ⟨?_, (Function.forall_update_iff _ fun _ => Echoes).2
        ⟨hlog.1, fun fd' _ => hs.echoes fd'⟩,
      (Function.forall_update_iff _ fun fd log => fd ∈ s.conns → Settled log).2
        ⟨hlog.2, fun fd' _ => hs.settled fd'⟩⟩
    rintro fd' ⟨⟩
  | idle hin hout => exact hs

lemma inTurn_selected {rfdsOut wfdsOut : Finset ℤ} {clientfd : ℤ} (hs : InTurn s)
    (hnew : clientfd ∉ s.conns) (h : selected listenfd s rfdsOut wfdsOut clientfd = some t) :
    InTurn t := by
  rcases selected_cases h with ⟨lastfd, -, -, rfl⟩ | rfl
  · refine ⟨fun fd hfd => ?_, (Function.forall_update_iff _ fun _ => Echoes).2
      ⟨echoes_nil, fun fd _ => hs.echoes fd⟩, fun fd hfd => ?_⟩
    · obtain ⟨hopen, l, bytes, hlog, hret⟩ := hs.heard fd hfd
      have hne : fd ≠ clientfd := fun heq => hnew (heq ▸ hopen)
      refine ⟨Finset.mem_insert_of_mem hopen, l, bytes, ?_, hret⟩
      simpa [hne] using hlog
    · by_cases heq : fd = clientfd
      · subst heq
        simpa using settled_nil
      · simpa [heq] using hs.settled fd (Finset.mem_of_mem_insert_of_ne hfd heq)
  · exact ⟨hs.heard, hs.echoes, hs.settled⟩

/-- **When the server echoes.**  In a run with full sends in which a client is sent something
only right after its message was received, and after all its earlier messages were answered,
what every client was sent is a prefix of what was received from it, and every answer is the
message it answers. -/
theorem echoes_of_ownReply
    (h : Reachable (fun s => s = State.start listenfd) (OwnNext listenfd) s) (fd : ℤ) :
    Echoes (s.log fd) := by
  have hinv : InTurn s := by
    refine Reachable.invariant (I := InTurn) ?_ ?_ h
    · rintro s rfl
      exact inTurn_start
    · rintro s t - hs ⟨i, hst, hfull, hown⟩
      cases hst with
      | select hcur hr hw hnew ht => exact inTurn_selected hs hnew.2 ht
      | @visit _ t fd r hcur hr ht =>
        obtain ⟨hheard, hecho, hset⟩ :=
          (visit_outcome ht).inTurn hs hr (hfull fd hcur) (hown fd hcur)
        exact ⟨hheard, hecho, hset⟩
  exact hinv.echoes fd

/-- The next visit, if there is one, sends nothing. -/
def Quiet (s : State) : Prop := ∀ fd, s.curFd = some fd → fd ∉ s.wfdsOut

lemma quiet_of_wfdsOut (h : s.wfdsOut = ∅) : Quiet s := fun fd _ => by simp [h]

lemma Quiet.fullSend (h : Quiet s) (i : Input) : FullSend s i := by
  cases i with
  | select _ _ _ => trivial
  | visit r => exact fun fd hcur _ hout => absurd hout (h fd hcur)

lemma Quiet.ownNext {i : Input} (h : Quiet s) (hst : Takes listenfd i s t) :
    OwnNext listenfd s t :=
  ⟨i, hst, h.fullSend i, fun fd hcur _ hout => absurd hout (h fd hcur)⟩

/-- The clients 4 and 5 send a byte each; then 4 is sent the byte of 5. -/
theorem mixedUpReply : ∃ s, Reachable (fun s => s = State.start 3)
      (fun s t => ∃ i, Takes 3 i s t ∧ FullSend s i) s ∧
    s.log 4 = [.recv [97], .send [98] [98]] ∧ s.log 5 = [.recv [98]] ∧
    ¬ sent (s.log 4) <+: received (s.log 4) := by
  have h₀ : Reachable (fun s => s = State.start 3) (fun s t => ∃ i, Takes 3 i s t ∧ FullSend s i)
    (State.start 3) := .of_init rfl
  have h₁ := h₀.tail ⟨_, @Takes.select 3 (State.start 3) _ {3} ∅ 4 rfl (by decide) (by decide)
    (by decide) rfl, trivial⟩
  have h₂ := h₁.tail ⟨_, .visit rfl (noReply_ok _ 4) rfl, (quiet_of_wfdsOut rfl).fullSend _⟩
  have h₃ := h₂.tail ⟨_, @Takes.select 3 _ _ {3} ∅ 5 rfl (by decide) (by decide) (by decide) rfl,
    trivial⟩
  have h₄ := h₃.tail ⟨_, .visit rfl (noReply_ok _ 4) rfl, (quiet_of_wfdsOut rfl).fullSend _⟩
  have h₅ := h₄.tail ⟨_, .visit rfl (noReply_ok _ 5) rfl, (quiet_of_wfdsOut rfl).fullSend _⟩
  have h₆ := h₅.tail ⟨_, @Takes.select 3 _ _ {4, 5} ∅ 0 rfl (by decide) (by decide) (by decide)
    rfl, trivial⟩
  have h₇ := h₆.tail ⟨_, .visit rfl (byte_ok (b := 97) (by decide)) rfl,
    (quiet_of_wfdsOut rfl).fullSend _⟩
  have h₈ := h₇.tail ⟨_, .visit rfl (byte_ok (b := 98) (by decide)) rfl,
    (quiet_of_wfdsOut rfl).fullSend _⟩
  have h₉ := h₈.tail ⟨_, @Takes.select 3 _ _ ∅ {4} 0 rfl (by decide) (by decide) (by decide)
    rfl, trivial⟩
  have hreach := h₉.tail ⟨_, @Takes.visit 3 _ _ 4 ⟨.error, 1, []⟩ rfl
    ⟨by simp, by decide, fun h => absurd h (by decide)⟩ rfl, by rintro fd ⟨⟩ _ _ _; rfl⟩
  exact ⟨_, hreach, rfl, rfl, by decide⟩

/-- The last call has received the only message of the client. -/
lemma ownReply_of_log {bytes : List UInt8} (hcur : s.curFd = some fd) (hheard : s.heard = some fd)
    (hlog : s.log fd = [.recv bytes]) : OwnReply s := by
  intro fd' hcur' _ _ _
  rw [hcur] at hcur'
  cases hcur'
  refine ⟨hheard, fun l bytes' hl hun => ?_⟩
  rw [hlog] at hl
  obtain ⟨rfl, -⟩ := List.append_inj' (show [] ++ [Act.recv bytes] = _ from hl) rfl
  obtain ⟨l, bytes, hnil⟩ := hun
  simp at hnil

/-- The clients 4 and 5 are sent back their bytes, one after the other. -/
theorem echoes_inTurn : ∃ s, Reachable (fun s => s = State.start 3) (OwnNext 3) s ∧
    s.log 4 = [.recv [97], .send [97] [97]] ∧ s.log 5 = [.recv [98], .send [98] [98]] ∧
      Echoes (s.log 4) ∧ Echoes (s.log 5) := by
  have h : Reachable (fun s => s = State.start 3) (OwnNext 3) (State.start 3) := .of_init rfl
  have h := h.tail ((quiet_of_wfdsOut rfl).ownNext (@Takes.select 3 (State.start 3) _ {3} ∅ 4 rfl
    (by decide) (by decide) (by decide) rfl))
  have h := h.tail ((quiet_of_wfdsOut rfl).ownNext (.visit rfl (noReply_ok _ 4) rfl))
  have h := h.tail ((quiet_of_wfdsOut rfl).ownNext (@Takes.select 3 _ _ {3} ∅ 5 rfl (by decide)
    (by decide) (by decide) rfl))
  have h := h.tail ((quiet_of_wfdsOut rfl).ownNext (.visit rfl (noReply_ok _ 4) rfl))
  have h := h.tail ((quiet_of_wfdsOut rfl).ownNext (.visit rfl (noReply_ok _ 5) rfl))
  have h := h.tail ((quiet_of_wfdsOut rfl).ownNext (@Takes.select 3 _ _ {4} ∅ 0 rfl (by decide)
    (by decide) (by decide) rfl))
  have h := h.tail ((quiet_of_wfdsOut rfl).ownNext
    (.visit rfl (byte_ok (b := 97) (by decide)) rfl))
  have h := h.tail ((quiet_of_wfdsOut rfl).ownNext (.visit rfl (noReply_ok _ 5) rfl))
  have h := h.tail ((quiet_of_wfdsOut rfl).ownNext (@Takes.select 3 _ _ {5} {4} 0 rfl (by decide)
    (by decide) (by decide) rfl))
  have h := h.tail ⟨_, @Takes.visit 3 _ _ 4 ⟨.error, 1, []⟩ rfl
    ⟨by simp, by decide, fun h => absurd h (by decide)⟩ rfl, by rintro fd ⟨⟩ _ _ _; rfl,
    ownReply_of_log rfl rfl rfl⟩
  have h := h.tail (Quiet.ownNext (by rintro fd ⟨⟩; decide)
    (.visit rfl (byte_ok (b := 98) (by decide)) rfl))
  have h := h.tail (Quiet.ownNext (by rintro fd ⟨⟩) (@Takes.select 3 _ _ ∅ {5} 0 rfl (by decide)
    (by decide) (by decide) rfl))
  have h := h.tail (Quiet.ownNext (by rintro fd ⟨⟩; decide) (.visit rfl (noReply_ok _ 4) rfl))
  have h := h.tail ⟨_, @Takes.visit 3 _ _ 5 ⟨.error, 1, []⟩ rfl
    ⟨by simp, by decide, fun h => absurd h (by decide)⟩ rfl, by rintro fd ⟨⟩ _ _ _; rfl,
    ownReply_of_log rfl rfl rfl⟩
  exact ⟨_, h, rfl, rfl, echoes_of_ownReply h 4, echoes_of_ownReply h 5⟩

end CppExample.Demo.SelectServer
