/-
# The select and the poll echo server do the same

Both servers are run on a schedule: in each round some of the watched descriptors are ready,
and the kernel has its answers to `accept` and to `read`.  The slot `i` of the one server
corresponds to the entry `i + 1` of the other.  When `select` and `poll` report the same
descriptors, both visit the same ones in the same order.

Both leave the loop over the descriptors as soon as `nready` of them were found ready.  As
`nready` is the number of those that are ready, nothing that is ready is left out:
`readLoop_spec`.
-/
import CppExample.Echo.SelectServer

namespace CppExample.Echo
open Lib

/-! ## Schedules -/

/-- A round: the descriptors that are ready, and the answers of the kernel. -/
structure Round extends Reply where
  ready : Finset ℤ

/-- Only watched descriptors are ready.  A new descriptor fits into an `fd_set`, and with it
there are at most 256 connections. -/
structure Round.Ok (listenfd : ℤ) (conns : Finset ℤ) (r : Round) : Prop where
  reply : r.toReply.Ok listenfd conns
  ready : r.ready ⊆ insert listenfd conns
  accept : ∀ c, listenfd ∈ r.ready → r.accept = .fd c →
    c < SelectServer.fdSetsize ∧ (insert c conns).card ≤ 256

/-- `accept`, if it is called, succeeds. -/
def Round.Accepts (listenfd : ℤ) (r : Round) : Prop :=
  listenfd ∈ r.ready → ∃ c, r.accept = .fd c

/-- The connections that are left when all that are ready were read. -/
def Round.left (r : Round) (conns : Finset ℤ) : Finset ℤ :=
  conns.filter fun fd => ¬ (fd ∈ r.ready ∧ r.read fd = .closed)

/-- The connections after the round. -/
def Round.after (listenfd : ℤ) (conns : Finset ℤ) (r : Round) : Finset ℤ :=
  if listenfd ∈ r.ready then
    match r.accept with
    | .fd c => r.left (insert c conns)
    | _ => conns
  else r.left conns

/-- All rounds of the schedule are as they should be. -/
def ScheduleOk (listenfd : ℤ) : Finset ℤ → List Round → Prop
  | _, [] => True
  | conns, r :: rounds => r.Ok listenfd conns ∧ ScheduleOk listenfd (r.after listenfd conns) rounds

/-- A run of the main loop, up to the end of the process. -/
def Outcome.run {S : Type} (step : S → Round → Outcome S) : Outcome S → List Round → Outcome S
  | .next s, r :: rounds => Outcome.run step (step s r) rounds
  | o, _ => o

/-- The process has ended. -/
def Outcome.Ended {S : Type} (o : Outcome S) : Prop := ∀ s, o ≠ .next s

/-- The two runs end in the same way, in corresponding states. -/
def Outcome.Alike {S T : Type} (R : S → T → Prop) : Outcome S → Outcome T → Prop
  | .next s, .next t => R s t
  | .acceptError s, .acceptError t => R s t
  | .tooManyClients s, .tooManyClients t => R s t
  | .outOfRange s, .outOfRange t => R s t
  | _, _ => False

/-- The descriptors that are read. -/
def readsOf (calls : List Call) : List ℤ :=
  calls.filterMap fun
    | .read sockfd _ => some sockfd
    | _ => none

namespace SelectServer

/-- `select` succeeds, and reports what is watched and ready. -/
def State.select (s : State) (ready : Finset ℤ) : SelectResult where
  rset := s.allset.filter fun fd => fd ≤ s.maxfd ∧ fd ∈ ready
  nready := (s.allset.filter fun fd => fd ≤ s.maxfd ∧ fd ∈ ready).card

/-- A round of the schedule. -/
def play (listenfd : ℤ) (s : State) (r : Round) : Outcome State :=
  round listenfd s (s.select r.ready) r.toReply

end SelectServer

namespace PollServer

/-- What `poll` writes for an entry. -/
def PollFd.report (e : PollFd) (ready : Finset ℤ) : UInt16 :=
  if 0 ≤ e.fd ∧ e.fd ∈ ready then e.events &&& pollrdnorm else 0

/-- `poll` succeeds, and reports what is watched and readable. -/
def State.report (s : State) (ready : Finset ℤ) : PollResult where
  revents i := (s.client i).report ready
  nready := ((List.range (s.maxidx + 1)).filter fun i => (s.client i).report ready ≠ 0).length

/-- A round of the schedule. -/
def play (listenfd : ℤ) (s : State) (r : Round) : Outcome State :=
  round listenfd s (s.report r.ready) r.toReply

/-! ## The loop of the poll server -/

variable {listenfd : ℤ} {s t : State} {r : Reply} {i : ℕ} {rset : Finset ℤ}

/-- The entry is not free, and `revents` says that it is readable. -/
def State.isReady (t : State) (i : ℕ) : Bool := 0 ≤ t.fds i && (t.client i).readable

lemma readClient_of_ne (t : State) (r : Reply) {j : ℕ} (hj : j ≠ i) :
    (readClient t i r).client j = t.client j := by
  rw [readClient]
  dsimp only
  split
  · exact Function.update_of_ne hj _ _
  · rfl

/-- Reading one connection says nothing about the others. -/
lemma readClient_frame (t : State) (r : Reply) {j : ℕ} (hj : j ≠ i) :
    (readClient t i r).isReady j = t.isReady j ∧ (readClient t i r).fds j = t.fds j := by
  rw [State.isReady, State.isReady, State.fds, State.fds, readClient_of_ne t r hj]
  exact ⟨rfl, rfl⟩

lemma filter_isReady_readClient (t : State) (r : Reply) {is : List ℕ} (hi : i ∉ is) :
    is.filter (readClient t i r).isReady = is.filter t.isReady := by
  refine List.filter_congr fun j hj => (readClient_frame t r ?_).1
  rintro rfl
  exact hi hj

/-- The calls for a connection that is ready, and the connections afterwards. -/
lemma readClient_calls (t : State) (i : ℕ) (r : Reply) :
    ∃ new, (readClient t i r).calls = t.calls ++ new ∧ readsOf new = [t.fds i] ∧
      ∀ fd, fd ∈ (readClient t i r).conns ↔
        fd ∈ t.conns ∧ ¬ (t.fds i = fd ∧ r.read fd = .closed) := by
  rw [readClient]
  dsimp only
  split
  · next hread =>
    refine ⟨_, rfl, rfl, fun fd => ?_⟩
    rw [Finset.mem_erase, and_comm]
    refine and_congr_right fun _ => ⟨?_, ?_⟩
    · rintro hne ⟨rfl, -⟩
      exact hne rfl
    · rintro hnot rfl
      exact hnot ⟨rfl, hread⟩
  · next bytes hread =>
    refine ⟨_, rfl, rfl, fun fd => (and_iff_left ?_).symm⟩
    rintro ⟨rfl, hclosed⟩
    rw [State.fds, hread] at hclosed
    cases hclosed

/-- The loop passes over an entry that is not ready. -/
lemma readLoop_of_not_isReady {is : List ℕ} (hready : ¬ t.isReady i = true) (nready : ℤ) :
    readLoop r (i :: is) nready t = readLoop r is nready t := by
  rw [readLoop]
  split
  · rfl
  · next hfd =>
    refine if_neg fun hrev => hready ?_
    exact Bool.and_eq_true_iff.2 ⟨decide_eq_true (not_lt.1 hfd), hrev⟩

/-- It reads one that is ready, and ends if it was the last one. -/
lemma readLoop_of_isReady {is : List ℕ} (hready : t.isReady i = true) (nready : ℤ) :
    readLoop r (i :: is) nready t = if nready - 1 ≤ 0 then readClient t i r
      else readLoop r is (nready - 1) (readClient t i r) := by
  obtain ⟨hfd, hrev⟩ := Bool.and_eq_true_iff.1 hready
  have hlt : ¬ (t.client i).fd < 0 := not_lt.2 (of_decide_eq_true hfd)
  rw [readLoop, if_neg hlt, if_pos hrev]

/-- When `nready` is the number of the entries that are ready, the loop reads all of them, in
their order, and nothing else. -/
lemma readLoop_spec {is : List ℕ} (hnd : is.Nodup) {nready : ℤ}
    (hn : nready = (is.filter t.isReady).length) :
    ∃ new, (readLoop r is nready t).calls = t.calls ++ new ∧
      readsOf new = (is.filter t.isReady).map t.fds ∧
      ∀ fd, fd ∈ (readLoop r is nready t).conns ↔
        fd ∈ t.conns ∧ ¬ (fd ∈ (is.filter t.isReady).map t.fds ∧ r.read fd = .closed) := by
  induction is generalizing t nready with
  | nil => exact ⟨[], by simp [readLoop], rfl, fun fd => by simp [readLoop]⟩
  | cons i is ih =>
    obtain ⟨hi, hnd⟩ := List.nodup_cons.1 hnd
    by_cases hready : t.isReady i = true
    · rw [List.filter_cons_of_pos hready, List.length_cons] at hn
      rw [readLoop_of_isReady hready, List.filter_cons_of_pos hready, List.map_cons]
      -- the entries that come after it are as before
      have hne : ∀ j ∈ is, j ≠ i := fun j hj hji => hi (hji ▸ hj)
      have hfilter := filter_isReady_readClient t r hi
      have hmap : (is.filter t.isReady).map (readClient t i r).fds
          = (is.filter t.isReady).map t.fds :=
        List.map_congr_left fun j hj =>
          (readClient_frame t r (hne j (List.mem_of_mem_filter hj))).2
      obtain ⟨new, hcalls, hreads, hconns⟩ := readClient_calls t i r
      have hsplit : ∀ fd, ¬ (fd ∈ t.fds i :: (is.filter t.isReady).map t.fds ∧ r.read fd = .closed)
          ↔ ¬ (t.fds i = fd ∧ r.read fd = .closed) ∧
            ¬ (fd ∈ (is.filter t.isReady).map t.fds ∧ r.read fd = .closed) := by
        intro fd
        rw [List.mem_cons, eq_comm, or_and_right, not_or]
      split
      · -- there is no other one that is ready
        next hle =>
        have hnil : is.filter t.isReady = [] := List.length_eq_zero_iff.1 (by omega)
        refine ⟨new, hcalls, by rw [hreads, hnil]; rfl, fun fd => ?_⟩
        rw [hconns, hsplit, hnil]
        simp
      · obtain ⟨new', hcalls', hreads', hconns'⟩ := @ih (readClient t i r) hnd (nready - 1)
          (by rw [hfilter]; omega)
        rw [hfilter, hmap] at hreads' hconns'
        refine ⟨new ++ new', by rw [hcalls', hcalls, List.append_assoc], ?_, fun fd => ?_⟩
        · rw [readsOf, List.filterMap_append]
          exact congrArg₂ (· ++ ·) hreads hreads'
        · rw [hconns', hconns, hsplit, and_assoc]
    · rw [List.filter_cons_of_neg hready] at hn ⊢
      rw [readLoop_of_not_isReady hready]
      exact ih hnd hn

/-! ## What `poll` reports -/

/-- The `revents` of the connections say which of them are ready. -/
def Reports (rset : Finset ℤ) (t : State) : Prop :=
  ∀ i, 1 ≤ i → i ≤ t.maxidx → 0 ≤ t.fds i → ((t.client i).readable = true ↔ t.fds i ∈ rset)

/-- The entries that are ready have the descriptors that are reported, each of them once. -/
lemma TableOk.ready (h : TableOk listenfd t) (hr : Reports rset t)
    (hsub : rset ⊆ insert listenfd t.conns) (hl : listenfd ∉ t.conns) :
    (((List.range' 1 t.maxidx).filter t.isReady).map t.fds).Nodup ∧
      ∀ fd, fd ∈ ((List.range' 1 t.maxidx).filter t.isReady).map t.fds ↔
        fd ∈ rset ∧ fd ≠ listenfd := by
  have hlt := h.maxidx_lt
  have hmem : ∀ i, i ∈ (List.range' 1 t.maxidx).filter t.isReady ↔
      1 ≤ i ∧ i ≤ t.maxidx ∧ 0 ≤ t.fds i ∧ t.fds i ∈ rset := by
    intro i
    rw [List.mem_filter, List.mem_range'_1, State.isReady, Bool.and_eq_true_iff, decide_eq_true_eq]
    constructor
    · rintro ⟨⟨hlo, hhi⟩, hfd, hrev⟩
      exact ⟨hlo, by omega, hfd, (hr i hlo (by omega) hfd).1 hrev⟩
    · rintro ⟨hlo, hhi, hfd, hmem⟩
      exact ⟨⟨hlo, by omega⟩, hfd, (hr i hlo hhi hfd).2 hmem⟩
  constructor
  · refine (List.Nodup.filter _ List.nodup_range').map_on fun i hi j hj heq => ?_
    obtain ⟨hlo, hhi, hfd, -⟩ := (hmem i).1 hi
    obtain ⟨hlo', hhi', -, -⟩ := (hmem j).1 hj
    exact h.holds.inj i j hlo (by omega) hlo' (by omega) hfd heq
  · intro fd
    rw [List.mem_map]
    constructor
    · rintro ⟨i, hi, rfl⟩
      obtain ⟨hlo, hhi, hfd, hin⟩ := (hmem i).1 hi
      refine ⟨hin, fun heq => hl ?_⟩
      rw [← heq]
      exact h.holds.mem i hlo (by omega) hfd
    · rintro ⟨hin, hne⟩
      have hconn : fd ∈ t.conns := Finset.mem_of_mem_insert_of_ne (hsub hin) hne
      obtain ⟨i, hlo, hhi, rfl⟩ := h.holds.slot fd hconn
      have hfd := h.holds.nonneg _ hconn
      refine ⟨i, (hmem i).2 ⟨hlo, ?_, hfd, hin⟩, rfl⟩
      by_contra hgt
      rw [h.above i (by omega) hhi] at hfd
      exact absurd hfd (by decide)

lemma TableOk.length_ready (h : TableOk listenfd t) (hr : Reports rset t)
    (hsub : rset ⊆ insert listenfd t.conns) (hl : listenfd ∉ t.conns) :
    ((List.range' 1 t.maxidx).filter t.isReady).length = (rset.erase listenfd).card := by
  obtain ⟨hnd, hmem⟩ := h.ready hr hsub hl
  rw [← List.length_map t.fds, ← List.toFinset_card_of_nodup hnd]
  congr 1
  ext fd
  rw [List.mem_toFinset, hmem, Finset.mem_erase, and_comm]

/-- The entries in use ask for readability, and the `revents` of those that were never polled
have no event. -/
structure Watches (t : State) : Prop where
  events : ∀ i, i ≤ t.maxidx → 0 ≤ t.fds i → (t.client i).events = pollrdnorm
  quiet : ∀ i, t.maxidx < i → (t.client i).revents = 0

lemma PollFd.report_ne_zero {e : PollFd} (h : 0 ≤ e.fd → e.events = pollrdnorm) :
    e.report rset ≠ 0 ↔ 0 ≤ e.fd ∧ e.fd ∈ rset := by
  rw [report]
  split
  · next hin =>
    rw [h hin.1]
    exact iff_of_true (by decide) hin
  · next hnot => exact iff_of_false (fun hne => hne rfl) hnot

lemma readable_report {e : PollFd} (h : 0 ≤ e.fd → e.events = pollrdnorm) :
    ({ e with revents := e.report rset } : PollFd).readable = true ↔ 0 ≤ e.fd ∧ e.fd ∈ rset := by
  rw [PollFd.readable, bne_iff_ne]
  show e.report rset &&& pollrdnorm ≠ 0 ↔ _
  rw [PollFd.report]
  split
  · next hin =>
    rw [h hin.1]
    exact iff_of_true (by decide) hin
  · next hnot => exact iff_of_false (fun hne => hne (by decide)) hnot

lemma client_poll (t : State) (p : PollResult) (hi : i ≤ t.maxidx) :
    (t.poll p).client i = { t.client i with revents := p.revents i } := if_pos hi

lemma Watches.readable (h : Watches t) (hi : i ≤ t.maxidx) :
    ((t.poll (t.report rset)).client i).readable = true ↔ 0 ≤ t.fds i ∧ t.fds i ∈ rset := by
  rw [client_poll t _ hi]
  exact readable_report (h.events i hi)

lemma Watches.reports (h : Watches t) : Reports rset (t.poll (t.report rset)) := by
  intro i _ hi hfd
  rw [fds_poll] at hfd ⊢
  rw [h.readable hi]
  exact and_iff_right hfd

/-- `poll` returns the number of descriptors that are ready. -/
lemma TableOk.nready (h : TableOk listenfd t) (hw : Watches t) (hlisten : 0 ≤ listenfd)
    (hsub : rset ⊆ insert listenfd t.conns) (hl : listenfd ∉ t.conns) :
    (t.report rset).nready = rset.card := by
  have hcount := (h.poll (t.report rset)).length_ready hw.reports hsub hl
  have hready : ∀ i ∈ List.range' 1 t.maxidx,
      decide ((t.client i).report rset ≠ 0) = (t.poll (t.report rset)).isReady i := by
    intro i hi
    have hle : i ≤ t.maxidx := by
      rw [List.mem_range'_1] at hi
      omega
    rw [Bool.eq_iff_iff, decide_eq_true_eq, PollFd.report_ne_zero (hw.events i hle), State.isReady,
      Bool.and_eq_true_iff, hw.readable hle, fds_poll, decide_eq_true_eq]
    exact ⟨fun hin => ⟨hin.1, hin⟩, fun hin => hin.2⟩
  have hzero : (t.client 0).report rset ≠ 0 ↔ listenfd ∈ rset := by
    rw [PollFd.report_ne_zero (hw.events 0 (Nat.zero_le _))]
    show 0 ≤ t.fds 0 ∧ t.fds 0 ∈ rset ↔ _
    rw [h.listener]
    exact and_iff_right hlisten
  rw [State.report]
  dsimp only
  rw [List.range_eq_range', List.range'_succ, Nat.zero_add]
  rw [List.filter_cons, List.filter_congr hready, Nat.cast_inj]
  split
  · next h0 =>
    rw [List.length_cons, ← Finset.card_erase_add_one (hzero.1 (of_decide_eq_true h0)), ← hcount]
    rfl
  · next h0 =>
    rw [Finset.erase_eq_of_notMem fun hin => h0 (decide_eq_true (hzero.2 hin))] at hcount
    exact hcount

lemma Reports.readClient (h : Reports rset t) (r : Reply) : Reports rset (readClient t i r) := by
  intro j hlo hhi hfd
  rw [maxidx_readClient] at hhi
  by_cases hj : j = i
  · subst hj
    rw [PollServer.readClient] at hfd ⊢
    dsimp only at hfd ⊢
    split at hfd
    · simp [State.fds] at hfd
    · exact h j hlo hhi hfd
  · rw [(readClient_frame t r hj).2] at hfd ⊢
    rw [readClient_of_ne t r hj]
    exact h j hlo hhi hfd

lemma Watches.poll (h : Watches t) (p : PollResult) : Watches (t.poll p) := by
  refine ⟨fun i hi hfd => ?_, fun i hi => ?_⟩
  · rw [fds_poll] at hfd
    rw [client_poll t p hi]
    exact h.events i hi hfd
  · exact (congrArg PollFd.revents (if_neg (not_le.2 hi))).trans (h.quiet i hi)

/-- An entry that is in use besides the new one is not above the old `maxidx`. -/
lemma le_maxidx_of_put {connfd : ℤ} {j : ℕ} (hi : i < maxPollSize)
    (habove : ∀ j, t.maxidx < j → j < maxPollSize → t.fds j = -1)
    (hj : j ≤ (t.put i connfd).maxidx) (hji : j ≠ i) (hfd : 0 ≤ t.fds j) : j ≤ t.maxidx := by
  by_contra hgt
  have hlt : j < i := by
    simp only [State.put] at hj
    split at hj <;> omega
  rw [habove j (by omega) (by omega)] at hfd
  exact absurd hfd (by decide)

lemma Watches.put (h : Watches t) (hi : i < maxPollSize) (connfd : ℤ)
    (habove : ∀ j, t.maxidx < j → j < maxPollSize → t.fds j = -1) : Watches (t.put i connfd) := by
  refine ⟨fun j hj hfd => ?_, fun j hj => ?_⟩
  · by_cases hji : j = i
    · subst hji
      simp [State.put]
    · rw [fds_put, Function.update_of_ne hji] at hfd
      simp only [State.put, Function.update_of_ne hji]
      exact h.events j (le_maxidx_of_put hi habove hj hji hfd) hfd
  · simp only [State.put] at hj ⊢
    have hlt : i < j ∧ t.maxidx < j := by
      split at hj <;> omega
    rw [Function.update_of_ne (by omega)]
    exact h.quiet j hlt.2

/-- After `poll`, no free entry is readable. -/
lemma Watches.not_readable (h : Watches t) (hfd : t.fds i < 0) :
    ((t.poll (t.report rset)).client i).readable = false := by
  rw [Bool.eq_false_iff]
  intro hrev
  by_cases hi : i ≤ t.maxidx
  · exact absurd ((h.readable hi).1 hrev).1 (not_le.2 hfd)
  · have hquiet := (h.poll (t.report rset)).quiet i (not_le.1 hi)
    rw [PollFd.readable, hquiet] at hrev
    exact absurd hrev (by decide)

/-- A new connection is not ready. -/
lemma Reports.put (h : Reports rset t) (hi : i < maxPollSize) {connfd : ℤ}
    (habove : ∀ j, t.maxidx < j → j < maxPollSize → t.fds j = -1)
    (hrev : (t.client i).readable = false) (hc : connfd ∉ rset) :
    Reports rset (t.put i connfd) := by
  intro j hlo hhi hfd
  rw [fds_put] at hfd ⊢
  by_cases hji : j = i
  · subst hji
    rw [Function.update_self]
    refine iff_of_false (fun hread => ?_) hc
    have hsame : ((t.put j connfd).client j).readable = (t.client j).readable := by
      simp [State.put, PollFd.readable]
    rw [hsame, hrev] at hread
    cases hread
  · rw [Function.update_of_ne hji] at hfd ⊢
    simp only [State.put, Function.update_of_ne hji]
    exact h j hlo (le_maxidx_of_put hi habove hhi hji hfd) hfd

/-- Reading a connection leaves the events of the entries, and fills no entry. -/
lemma readClient_entry (t : State) (i : ℕ) (r : Reply) (j : ℕ) :
    ((readClient t i r).client j).events = (t.client j).events ∧
      ((readClient t i r).client j).revents = (t.client j).revents ∧
      (0 ≤ (readClient t i r).fds j → 0 ≤ t.fds j) := by
  by_cases hj : j = i
  · subst hj
    rw [readClient]
    dsimp only
    split
    · simp [State.fds]
    · exact ⟨rfl, rfl, id⟩
  · rw [readClient_of_ne t r hj, (readClient_frame t r hj).2]
    exact ⟨rfl, rfl, id⟩

lemma Watches.readClient (h : Watches t) (i : ℕ) (r : Reply) :
    Watches (PollServer.readClient t i r) := by
  refine ⟨fun j hj hfd => ?_, fun j hj => ?_⟩
  · rw [maxidx_readClient] at hj
    rw [(readClient_entry t i r j).1]
    exact h.events j hj ((readClient_entry t i r j).2.2 hfd)
  · rw [maxidx_readClient] at hj
    rw [(readClient_entry t i r j).2.1]
    exact h.quiet j hj

lemma Watches.readClients (h : Watches t) (nready : ℤ) (r : Reply) :
    Watches (readClients r nready t) :=
  readLoop_invariant r (fun _ i _ _ ht => ht.readClient i r) nready h

end PollServer

/-! ## Both servers -/

section Both

variable {listenfd : ℤ} {s : SelectServer.State} {t : PollServer.State} {r : Reply} {i : ℕ}
  {rset : Finset ℤ}

/-- The slot `i` of the select server is the entry `i + 1` of the poll server.  Both have the same
connections, and have made the same calls. -/
structure Same (listenfd : ℤ) (s : SelectServer.State) (t : PollServer.State) : Prop where
  slots : ∀ i, i < 256 → s.client i = t.fds (i + 1) ∨ (s.client i < 0 ∧ t.fds (i + 1) < 0)
  maxidx : s.maxidx + 1 = t.maxidx
  maxidx_le : t.maxidx ≤ 256
  conns : s.conns = t.conns
  calls : s.calls = t.calls
  allset : s.allset = insert listenfd s.conns
  maxfd : ∀ fd ∈ s.allset, fd ≤ s.maxfd
  range : ∀ fd ∈ s.allset, fd < SelectServer.fdSetsize

lemma Same.free_iff (h : Same listenfd s t) (hi : i < 256) :
    s.client i < 0 ↔ t.fds (i + 1) < 0 := by
  rcases h.slots i hi with heq | ⟨h₁, h₂⟩
  · rw [heq]
  · exact iff_of_true h₁ h₂

lemma Same.slot_eq (h : Same listenfd s t) (hi : i < 256) (hfd : 0 ≤ s.client i) :
    s.client i = t.fds (i + 1) := by
  rcases h.slots i hi with heq | ⟨hneg, -⟩
  · exact heq
  · exact absurd hneg (not_lt.2 hfd)

/-- Both read a connection, and drop it if it is gone. -/
lemma Same.readClient (h : Same listenfd s t) (hl : listenfd ∉ t.conns) (hi : i < 256)
    (hfd : s.client i = t.fds (i + 1)) (hconn : s.client i ∈ s.conns) (r : Reply) :
    Same listenfd (SelectServer.readClient s i r) (PollServer.readClient t (i + 1) r) := by
  have hfd' : (t.client (i + 1)).fd = s.client i := hfd.symm
  rw [SelectServer.readClient, PollServer.readClient, hfd']
  cases r.read (s.client i) with
  | closed =>
    have hfds : ∀ conns calls, PollServer.State.fds ⟨Function.update t.client (i + 1)
        { t.client (i + 1) with fd := -1 }, t.maxidx, conns, calls⟩
        = Function.update t.fds (i + 1) (-1) := fun _ _ => PollServer.fd_update t.client (i + 1) _
    have hsub : ∀ fd ∈ s.allset.erase (s.client i), fd ∈ s.allset :=
      fun fd hfd => Finset.mem_of_mem_erase hfd
    refine ⟨fun j hj => ?_, h.maxidx, h.maxidx_le, ?_, ?_, ?_,
      fun fd hfd => h.maxfd fd (hsub fd hfd), fun fd hfd => h.range fd (hsub fd hfd)⟩
    · rw [hfds]
      dsimp only
      by_cases hji : j = i
      · subst hji
        rw [Function.update_self, Function.update_self]
        exact Or.inl rfl
      · rw [Function.update_of_ne hji, Function.update_of_ne (by omega)]
        exact h.slots j hj
    · exact congrArg (Finset.erase · _) h.conns
    · exact congrArg (· ++ _) h.calls
    · have hne : s.client i ≠ listenfd := by
        intro heq
        rw [heq, h.conns] at hconn
        exact hl hconn
      dsimp only
      rw [h.allset, Finset.erase_insert_of_ne hne.symm]
  | data bytes =>
    exact ⟨h.slots, h.maxidx, h.maxidx_le, h.conns, congrArg (· ++ _) h.calls, h.allset, h.maxfd,
      h.range⟩

/-- Both loops visit the same connections. -/
lemma Same.readLoop {is : List ℕ} (h : Same listenfd s t) (ht : PollServer.TableOk listenfd t)
    (hl : listenfd ∉ t.conns) (hr : PollServer.Reports rset t) (his : ∀ i ∈ is, i < t.maxidx)
    (r : Reply) (nready : ℤ) :
    ∃ s', SelectServer.readLoop r rset is nready s = .next s' ∧
      Same listenfd s' (PollServer.readLoop r (is.map (· + 1)) nready t) := by
  induction is generalizing s t nready with
  | nil => exact ⟨s, rfl, h⟩
  | cons i is ih =>
    have hle := h.maxidx_le
    have hlt := his i List.mem_cons_self
    have hrest : ∀ j ∈ is, j < t.maxidx := fun j hj => his j (List.mem_cons_of_mem _ hj)
    rw [SelectServer.readLoop, List.map_cons, PollServer.readLoop]
    by_cases hneg : s.client i < 0
    · have hneg' : (t.client (i + 1)).fd < 0 := (h.free_iff (by omega)).1 hneg
      rw [if_pos hneg, if_pos hneg']
      exact ih h ht hl hr hrest nready
    · have hfd := h.slot_eq (by omega) (not_lt.1 hneg)
      have hnn : 0 ≤ t.fds (i + 1) := hfd ▸ not_lt.1 hneg
      have hlt' := ht.maxidx_lt
      have hconn : s.client i ∈ s.conns := by
        rw [h.conns, hfd]
        exact ht.holds.mem (i + 1) (by omega) (by omega) hnn
      have hin : ¬ s.client i ≥ SelectServer.fdSetsize := by
        have hlt := h.range (s.client i) (by rw [h.allset]; exact Finset.mem_insert_of_mem hconn)
        omega
      have hiff := hr (i + 1) (by omega) (by omega) hnn
      rw [← hfd] at hiff
      rw [if_neg hneg, if_neg hin, if_neg (show ¬ (t.client (i + 1)).fd < 0 from not_lt.2 hnn)]
      by_cases hready : s.client i ∈ rset
      · rw [if_pos hready, if_pos (hiff.2 hready)]
        have hread := h.readClient hl (by omega) hfd hconn r
        dsimp only
        split
        · exact ⟨_, rfl, hread⟩
        · obtain ⟨new, -, -, hconns⟩ := PollServer.readClient_calls t (i + 1) r
          refine ih hread (ht.readClient (by omega) (by omega) hnn r)
            (fun hmem => hl ((hconns _).1 hmem).1) (hr.readClient r) (fun j hj => ?_) _
          rw [PollServer.maxidx_readClient]
          exact hrest j hj
      · rw [if_neg hready, if_neg (fun hrev => hready (hiff.1 hrev))]
        exact ih h ht hl hr hrest nready

/-- The servers in a round, after `select` and `poll`. -/
structure Linked (listenfd : ℤ) (s : SelectServer.State) (t : PollServer.State) : Prop where
  same : Same listenfd s t
  table : PollServer.TableOk listenfd t
  watches : PollServer.Watches t
  listener : listenfd ∉ t.conns

/-- With the calls of the round, every connection that is ready is read once, and nothing else
is read. -/
def Serves (listenfd : ℤ) (ready : Finset ℤ) (before after : List Call) : Prop :=
  ∃ new, after = before ++ new ∧ (readsOf new).Nodup ∧
    ∀ fd, fd ∈ readsOf new ↔ fd ∈ ready ∧ fd ≠ listenfd

/-- What both servers do with the connections that are ready. -/
lemma Linked.readClients {r : Round} (h : Linked listenfd s t)
    (hr : PollServer.Reports r.ready t) (hsub : r.ready ⊆ insert listenfd t.conns) {nready : ℤ}
    (hn : nready = (r.ready.erase listenfd).card) :
    ∃ s', SelectServer.readClients r.toReply r.ready nready s = .next s' ∧
      Linked listenfd s' (PollServer.readClients r.toReply nready t) ∧
      Serves listenfd r.ready t.calls (PollServer.readClients r.toReply nready t).calls ∧
      (PollServer.readClients r.toReply nready t).conns = r.left t.conns := by
  have hmax : (s.maxidx + 1).toNat = t.maxidx := by
    rw [h.same.maxidx, Int.toNat_natCast]
  have hrange : (List.range t.maxidx).map (· + 1) = List.range' 1 t.maxidx := by
    rw [List.range'_eq_map_range]
    exact List.map_congr_left fun i _ => Nat.add_comm i 1
  obtain ⟨s', hs', hsame⟩ := h.same.readLoop h.table h.listener hr
    (fun i hi => List.mem_range.1 hi) r.toReply nready
  rw [hrange] at hsame
  obtain ⟨hnd, hmem⟩ := h.table.ready hr hsub h.listener
  obtain ⟨new, hcalls, hreads, hconns⟩ := @PollServer.readLoop_spec t r.toReply _
    List.nodup_range' nready (by rw [hn, h.table.length_ready hr hsub h.listener])
  refine ⟨s', by rw [SelectServer.readClients, hmax]; exact hs', ⟨hsame,
    h.table.readClients nready _, h.watches.readClients nready _, fun hin => ?_⟩,
    ⟨new, hcalls, ?_, ?_⟩, ?_⟩
  · exact h.listener ((hconns _).1 hin).1
  · rw [hreads]
    exact hnd
  · intro fd
    rw [hreads, hmem]
  · ext fd
    rw [PollServer.readClients, hconns, hmem, Round.left, Finset.mem_filter]
    refine and_congr_right fun hconn => not_congr (and_congr_left fun _ => and_iff_left ?_)
    rintro rfl
    exact h.listener hconn

/-- Both servers put a new connection into the first slot that is free. -/
lemma Linked.put (h : Linked listenfd s t) {j : ℕ} (hj : j < 256) (hfree : t.fds (j + 1) < 0)
    {c : ℤ} (hc : 0 ≤ c) (hcl : c ≠ listenfd) (hnew : c ∉ t.conns)
    (hrange : c < SelectServer.fdSetsize) :
    Linked listenfd
      (SelectServer.State.put
        { s with calls := s.calls ++ [.accept listenfd], conns := insert c s.conns } j c)
      (PollServer.State.put
        { t with calls := t.calls ++ [.accept listenfd], conns := insert c t.conns }
        (j + 1) c) := by
  have hlt : j + 1 < PollServer.maxPollSize := by
    rw [PollServer.maxPollSize]
    omega
  have hle := h.same.maxidx_le
  have hmax := h.same.maxidx
  have htable := h.table.put (by omega) hlt hfree hc hnew
  have hwatches : PollServer.Watches
      { t with calls := t.calls ++ [.accept listenfd], conns := insert c t.conns } :=
    ⟨h.watches.events, h.watches.quiet⟩
  have hallset : ∀ fd ∈ insert c s.allset, fd = c ∨ fd ∈ s.allset :=
    fun fd hfd => Finset.mem_insert.1 hfd
  refine ⟨⟨fun i hi => ?_, ?_, ?_, ?_, ?_, ?_, fun fd hfd => ?_, fun fd hfd => ?_⟩,
    htable.congr rfl rfl rfl, hwatches.put hlt c h.table.above, fun hin => ?_⟩
  · rw [PollServer.fds_put]
    simp only [SelectServer.State.put]
    by_cases hij : i = j
    · subst hij
      rw [Function.update_self, Function.update_self]
      exact Or.inl rfl
    · rw [Function.update_of_ne hij, Function.update_of_ne (by omega)]
      exact h.same.slots i hi
  · simp only [SelectServer.State.put, PollServer.State.put]
    split <;> split <;> omega
  · simp only [PollServer.State.put]
    split <;> omega
  · exact congrArg (insert c) h.same.conns
  · exact congrArg (· ++ _) h.same.calls
  · simp only [SelectServer.State.put]
    rw [h.same.allset, Finset.insert_comm]
  · simp only [SelectServer.State.put] at hfd ⊢
    rcases hallset fd hfd with rfl | hfd
    · split <;> omega
    · have hle := h.same.maxfd fd hfd
      split <;> omega
  · rcases hallset fd hfd with rfl | hfd
    · exact hrange
    · exact h.same.range fd hfd
  · rcases Finset.mem_insert.1 hin with heq | hin
    · exact hcl heq.symm
    · exact h.listener hin

/-- `select` reports the descriptors that are ready. -/
lemma Linked.select (h : Linked listenfd s t) {ready : Finset ℤ}
    (hsub : ready ⊆ insert listenfd t.conns) : s.select ready = ⟨ready.card, ready⟩ := by
  have hset : s.allset.filter (fun fd => fd ≤ s.maxfd ∧ fd ∈ ready) = ready := by
    ext fd
    rw [Finset.mem_filter]
    refine ⟨fun hfd => hfd.2.2, fun hfd => ?_⟩
    have hall : fd ∈ s.allset := by
      rw [h.same.allset, h.same.conns]
      exact hsub hfd
    exact ⟨hall, h.same.maxfd fd hall, hfd⟩
  rw [SelectServer.State.select, hset]

lemma Linked.poll (h : Linked listenfd s t) (p : PollServer.PollResult) :
    Linked listenfd s (t.poll p) := by
  have hs := h.same
  refine ⟨⟨fun i hi => ?_, hs.maxidx, hs.maxidx_le, hs.conns, hs.calls, hs.allset, hs.maxfd,
    hs.range⟩, h.table.poll p, h.watches.poll p, h.listener⟩
  rw [PollServer.fds_poll]
  exact hs.slots i hi

lemma Linked.call (h : Linked listenfd s t) (call : Call) :
    Linked listenfd { s with calls := s.calls ++ [call] }
      { t with calls := t.calls ++ [call] } := by
  have hs := h.same
  exact ⟨⟨hs.slots, hs.maxidx, hs.maxidx_le, hs.conns, congrArg (· ++ _) hs.calls, hs.allset,
    hs.maxfd, hs.range⟩, h.table.congr rfl rfl rfl, ⟨h.watches.events, h.watches.quiet⟩, h.listener⟩

/-- With less than 256 connections, both servers find the same free slot. -/
lemma Linked.exists_firstFree (h : Linked listenfd s t) (hcard : t.conns.card < 256) :
    ∃ j, j < 256 ∧ t.fds (j + 1) < 0 ∧
      firstFree 0 SelectServer.fdSetsize s.client = some j ∧
      firstFree 1 PollServer.maxPollSize t.fds = some (j + 1) := by
  obtain ⟨i, hlo, hhi, hneg⟩ := h.table.holds.exists_free (show 1 + 256 ≤ 4096 by decide) hcard
  obtain ⟨k, rfl⟩ := Nat.exists_eq_add_of_le' hlo
  obtain ⟨j, hj, h3, h4⟩ := @firstFree_shift SelectServer.fdSetsize s.client t.fds 256
    PollServer.maxPollSize (by decide) (by decide) (fun i hi => h.same.free_iff hi)
    ⟨k, by omega, (h.same.free_iff (by omega)).2 hneg⟩
  exact ⟨j, hj, (firstFree_eq_some h4).2.2, h3, h4⟩

/-- What both servers do in a round after a new connection was put into its slot. -/
lemma Linked.accepted {r : Round} (h : Linked listenfd s t) (hr : PollServer.Reports r.ready t)
    (hsub : r.ready ⊆ insert listenfd t.conns) (hin : listenfd ∈ r.ready) {before : List Call}
    (hbefore : t.calls = before ++ [.accept listenfd]) :
    ∃ s' t', (if (r.ready.card : ℤ) - 1 ≤ 0 then Outcome.next s
        else SelectServer.readClients r.toReply r.ready (r.ready.card - 1) s) = .next s' ∧
      (if (r.ready.card : ℤ) - 1 ≤ 0 then Outcome.next t
        else .next (PollServer.readClients r.toReply (r.ready.card - 1) t)) = .next t' ∧
      Linked listenfd s' t' ∧ Serves listenfd r.ready before t'.calls ∧
      t'.conns = r.left t.conns := by
  have hcard := Finset.card_erase_add_one hin
  split
  · next hle =>
    -- only the listening descriptor is ready
    have hempty : r.ready.erase listenfd = ∅ := Finset.card_eq_zero.1 (by omega)
    have honly : ∀ fd, ¬ (fd ∈ r.ready ∧ fd ≠ listenfd) := by
      rintro fd ⟨hfd, hne⟩
      have hmem := Finset.mem_erase.2 ⟨hne, hfd⟩
      rw [hempty] at hmem
      exact absurd hmem (Finset.notMem_empty fd)
    refine ⟨s, t, rfl, rfl, h, ⟨[.accept listenfd], hbefore, List.nodup_nil, fun fd => ?_⟩, ?_⟩
    · exact iff_of_false List.not_mem_nil (honly fd)
    · refine (Finset.filter_true_of_mem fun fd hfd => ?_).symm
      rintro ⟨hready, -⟩
      refine honly fd ⟨hready, ?_⟩
      rintro rfl
      exact h.listener hfd
  · obtain ⟨s', hs', hlinked, ⟨new, hnew, hserves⟩, hconns⟩ := h.readClients hr hsub
      (show (r.ready.card : ℤ) - 1 = (r.ready.erase listenfd).card by omega)
    refine ⟨s', _, hs', rfl, hlinked, ⟨.accept listenfd :: new, ?_, hserves⟩, hconns⟩
    rw [hnew, hbefore, List.append_assoc]
    rfl

/-- `poll` reports the listening descriptor if a client wants to connect. -/
lemma Linked.readable_listener (h : Linked listenfd s t) (hlisten : 0 ≤ listenfd)
    (ready : Finset ℤ) :
    ((t.poll (t.report ready)).client 0).readable = true ↔ listenfd ∈ ready := by
  rw [h.watches.readable (Nat.zero_le _), h.table.listener]
  exact and_iff_right hlisten

/-- A round in which `accept`, if it is called, succeeds: every connection that is ready is read
once, and nothing else is read. -/
lemma Linked.play_of_accepts {r : Round} (h : Linked listenfd s t) (hlisten : 0 ≤ listenfd)
    (hr : r.Ok listenfd t.conns) (hacc : r.Accepts listenfd) :
    ∃ s' t', SelectServer.play listenfd s r = .next s' ∧ PollServer.play listenfd t r = .next t' ∧
      Linked listenfd s' t' ∧ Serves listenfd r.ready t.calls t'.calls ∧
      t'.conns = r.after listenfd t.conns := by
  have hpoll := h.poll (t.report r.ready)
  have hreports : PollServer.Reports r.ready (t.poll (t.report r.ready)) := h.watches.reports
  have hlistener := h.readable_listener hlisten r.ready
  rw [SelectServer.play, h.select hr.ready, SelectServer.round, PollServer.play, PollServer.round,
    PollServer.handle, h.table.nready h.watches hlisten hr.ready h.listener, Round.after]
  by_cases hin : listenfd ∈ r.ready
  · obtain ⟨c, haccept⟩ := hacc hin
    obtain ⟨hc, hcl, hnew⟩ := hr.reply.accept c haccept
    obtain ⟨hrange, hcard⟩ := hr.accept c hin haccept
    rw [Finset.card_insert_of_notMem hnew] at hcard
    obtain ⟨j, hj, hfree, h3, h4⟩ := hpoll.exists_firstFree (show t.conns.card < 256 by omega)
    have hput := hpoll.put hj hfree hc hcl hnew hrange
    have hcready : c ∉ r.ready := fun hmem => (Finset.mem_insert.1 (hr.ready hmem)).elim hcl hnew
    rw [PollServer.fds_poll] at hfree
    have hlt : j + 1 < PollServer.maxPollSize := (firstFree_eq_some h4).2.1
    obtain ⟨s', t', hs', ht', hlinked, hserves, hconns⟩ := hput.accepted
      (hreports.put hlt hpoll.table.above (h.watches.not_readable hfree) hcready)
      (hr.ready.trans (Finset.insert_subset_insert _ (Finset.subset_insert _ _))) hin rfl
    have h4' : ∀ conns calls, firstFree 1 PollServer.maxPollSize
        (PollServer.State.fds ⟨(t.poll (t.report r.ready)).client,
          (t.poll (t.report r.ready)).maxidx, conns, calls⟩) = some (j + 1) := fun _ _ => h4
    rw [if_pos hin, if_pos (hlistener.2 hin), if_pos hin, haccept]
    dsimp only
    rw [h3, h4']
    dsimp only
    rw [if_neg (not_le.2 hrange)]
    exact ⟨s', t', hs', ht', hlinked, hserves, hconns⟩
  · rw [if_neg hin, if_neg (fun hread => hin (hlistener.1 hread)), if_neg hin]
    obtain ⟨s', hs', hlinked, hserves, hconns⟩ := hpoll.readClients hreports hr.ready
      (by rw [Finset.erase_eq_of_notMem hin])
    exact ⟨s', _, hs', rfl, hlinked, hserves, hconns⟩

/-- A round in which `accept` does not give a connection: both servers call it, and then do
nothing. -/
lemma Linked.play_of_not_accepts {r : Round} (h : Linked listenfd s t) (hlisten : 0 ≤ listenfd)
    (hr : r.Ok listenfd t.conns) (hnot : ¬ r.Accepts listenfd) :
    Outcome.Alike (Linked listenfd) (SelectServer.play listenfd s r)
      (PollServer.play listenfd t r) ∧
    ∀ t', PollServer.play listenfd t r = .next t' → t'.conns = r.after listenfd t.conns := by
  obtain ⟨hin, hfd⟩ : listenfd ∈ r.ready ∧ ∀ c, r.accept ≠ .fd c := by
    rw [Round.Accepts] at hnot
    push Not at hnot
    exact hnot
  have hcall := (h.poll (t.report r.ready)).call (.accept listenfd)
  rw [SelectServer.play, h.select hr.ready, SelectServer.round, PollServer.play, PollServer.round,
    PollServer.handle, if_pos hin, if_pos ((h.readable_listener hlisten r.ready).2 hin),
    Round.after, if_pos hin]
  cases haccept : r.accept with
  | eintr =>
    refine ⟨hcall, fun t' ht' => ?_⟩
    obtain rfl := Outcome.next.inj ht'
    rfl
  | error =>
    refine ⟨hcall, fun t' ht' => ?_⟩
    cases ht'
  | fd c => exact absurd haccept (hfd c)

/-- **A round.**  Both servers do the same. -/
lemma Linked.play {r : Round} (h : Linked listenfd s t) (hlisten : 0 ≤ listenfd)
    (hr : r.Ok listenfd t.conns) :
    Outcome.Alike (Linked listenfd) (SelectServer.play listenfd s r)
      (PollServer.play listenfd t r) ∧
    ∀ t', PollServer.play listenfd t r = .next t' → t'.conns = r.after listenfd t.conns := by
  by_cases hacc : r.Accepts listenfd
  · obtain ⟨s', t', hs', ht', hlinked, -, hconns⟩ := h.play_of_accepts hlisten hr hacc
    rw [hs', ht']
    refine ⟨hlinked, fun t'' ht'' => ?_⟩
    obtain rfl := Outcome.next.inj ht''
    exact hconns
  · exact h.play_of_not_accepts hlisten hr hacc

/-! ## Whole runs -/

/-- The run of the select server on a schedule. -/
def selectRun (listenfd : ℤ) (garbage : ℕ → ℤ) (rounds : List Round) : Outcome SelectServer.State :=
  Outcome.run (SelectServer.play listenfd) (.next (SelectServer.State.start listenfd garbage))
    rounds

/-- The run of the poll server on a schedule. -/
def pollRun (listenfd : ℤ) (garbage : ℕ → PollServer.PollFd) (rounds : List Round) :
    Outcome PollServer.State :=
  Outcome.run (PollServer.play listenfd) (.next (PollServer.State.start listenfd garbage)) rounds

lemma linked_start (hlisten : 0 ≤ listenfd ∧ listenfd < SelectServer.fdSetsize) {garbage : ℕ → ℤ}
    (hslots : ∀ i, garbage i < 0) {garbage' : ℕ → PollServer.PollFd}
    (hquiet : ∀ i, (garbage' i).revents = 0) :
    Linked listenfd (SelectServer.State.start listenfd garbage)
      (PollServer.State.start listenfd garbage') := by
  refine ⟨⟨fun i hi => ?_, rfl, Nat.zero_le _, rfl, rfl, rfl, fun fd hfd => ?_, fun fd hfd => ?_⟩,
    PollServer.tableOk_start garbage', ⟨fun i hi _ => ?_, fun i hi => ?_⟩, Finset.notMem_empty _⟩
  · right
    rw [PollServer.fds_start, Function.update_of_ne (Nat.succ_ne_zero i)]
    refine ⟨?_, by decide⟩
    simp only [SelectServer.State.start, SelectServer.initClient]
    split
    · decide
    · exact hslots i
  · rw [Finset.mem_singleton.1 hfd]
    exact le_rfl
  · rw [Finset.mem_singleton.1 hfd]
    exact hlisten.2
  · obtain rfl : i = 0 := Nat.le_zero.1 hi
    simp [PollServer.State.start]
  · have hne : i ≠ 0 := Nat.ne_of_gt hi
    simp [PollServer.State.start, hne, hquiet]

section Runs

variable {S T : Type} {R : S → T → Prop} {o : Outcome S} {o' : Outcome T}

lemma Outcome.run_of_ended (step : S → Round → Outcome S) (h : o.Ended) (rounds : List Round) :
    Outcome.run step o rounds = o := by
  cases o with
  | next s => exact absurd rfl (h s)
  | acceptError s => cases rounds <;> rfl
  | tooManyClients s => cases rounds <;> rfl
  | outOfRange s => cases rounds <;> rfl

/-- Either both runs go on, or both have ended. -/
lemma Outcome.Alike.cases (h : Outcome.Alike R o o') :
    (∃ s t, o = .next s ∧ o' = .next t ∧ R s t) ∨ (o.Ended ∧ o'.Ended) := by
  cases o with
  | next s =>
    cases o' with
    | next t => exact Or.inl ⟨s, t, rfl, rfl, h⟩
    | _ => exact h.elim
  | acceptError s =>
    cases o' with
    | acceptError t => exact Or.inr ⟨by simp [Ended], by simp [Ended]⟩
    | _ => exact h.elim
  | tooManyClients s =>
    cases o' with
    | tooManyClients t => exact Or.inr ⟨by simp [Ended], by simp [Ended]⟩
    | _ => exact h.elim
  | outOfRange s =>
    cases o' with
    | outOfRange t => exact Or.inr ⟨by simp [Ended], by simp [Ended]⟩
    | _ => exact h.elim

lemma Outcome.Alike.mono {R' : S → T → Prop} (h : Outcome.Alike R o o')
    (hR : ∀ s t, R s t → R' s t) : Outcome.Alike R' o o' := by
  cases o <;> cases o' <;> first
    | exact hR _ _ h
    | exact h.elim

end Runs

/-- Both servers do the same on every schedule.  When the poll server has come through the first
rounds, the select server has, too, and the next round is as it should be. -/
lemma Linked.run (h : Linked listenfd s t) (hlisten : 0 ≤ listenfd) {rounds : List Round}
    (hs : ScheduleOk listenfd t.conns rounds) :
    Outcome.Alike (Linked listenfd) (Outcome.run (SelectServer.play listenfd) (.next s) rounds)
      (Outcome.run (PollServer.play listenfd) (.next t) rounds) ∧
    ∀ pre r post t', rounds = pre ++ r :: post →
      Outcome.run (PollServer.play listenfd) (.next t) pre = .next t' →
      r.Ok listenfd t'.conns := by
  induction rounds generalizing s t with
  | nil =>
    refine ⟨h, fun pre r post t' heq => ?_⟩
    simp at heq
  | cons r rounds ih =>
    obtain ⟨hr, hrest⟩ := hs
    obtain ⟨halike, hnext⟩ := h.play hlisten hr
    rw [Outcome.run, Outcome.run]
    rcases halike.cases with ⟨s₁, t₁, hs₁, ht₁, hlinked⟩ | ⟨hend, hend'⟩
    · rw [← hnext t₁ ht₁] at hrest
      obtain ⟨hrun, hok⟩ := ih hlinked hrest
      rw [hs₁, ht₁]
      refine ⟨hrun, fun pre r' post t' heq ht' => ?_⟩
      cases pre with
      | nil =>
        cases heq
        cases ht'
        exact hr
      | cons r₁ pre =>
        cases heq
        rw [Outcome.run, ht₁] at ht'
        exact hok pre r' post t' rfl ht'
    · rw [Outcome.run_of_ended _ hend, Outcome.run_of_ended _ hend']
      refine ⟨halike, fun pre r' post t' heq ht' => ?_⟩
      cases pre with
      | nil =>
        cases heq
        cases ht'
        exact hr
      | cons r₁ pre =>
        cases heq
        rw [Outcome.run, Outcome.run_of_ended _ hend'] at ht'
        exact absurd ht' (hend' t')

/-- The first rounds of a schedule are a schedule. -/
lemma ScheduleOk.of_append {conns : Finset ℤ} {pre post : List Round}
    (h : ScheduleOk listenfd conns (pre ++ post)) : ScheduleOk listenfd conns pre := by
  induction pre generalizing conns with
  | nil => trivial
  | cons r pre ih => exact ⟨h.1, ih h.2⟩

/-- **The select and the poll server are equivalent.**  On every schedule they make the same
calls, with the same arguments, and end in the same way.  In a round in which `accept`, if it is
called, succeeds, both go on, and both read every connection that is ready once, and nothing
else. -/
theorem selectRun_alike_pollRun (hlisten : 0 ≤ listenfd ∧ listenfd < SelectServer.fdSetsize)
    {garbage : ℕ → ℤ} (hslots : ∀ i, garbage i < 0) {garbage' : ℕ → PollServer.PollFd}
    (hquiet : ∀ i, (garbage' i).revents = 0) {rounds : List Round}
    (hs : ScheduleOk listenfd ∅ rounds) :
    Outcome.Alike (fun s t => s.calls = t.calls) (selectRun listenfd garbage rounds)
      (pollRun listenfd garbage' rounds) ∧
    ∀ pre r post s t, rounds = pre ++ r :: post → r.Accepts listenfd →
      selectRun listenfd garbage pre = .next s → pollRun listenfd garbage' pre = .next t →
      ∃ s' t', SelectServer.play listenfd s r = .next s' ∧
        PollServer.play listenfd t r = .next t' ∧
        Serves listenfd r.ready s.calls s'.calls ∧ Serves listenfd r.ready t.calls t'.calls := by
  have hstart := linked_start hlisten hslots hquiet
  obtain ⟨hrun, hok⟩ := hstart.run hlisten.1 hs
  refine ⟨hrun.mono fun s t h => h.same.calls, fun pre r post s t heq hacc hs' ht' => ?_⟩
  -- the states in front of the round correspond
  have hr := hok pre r post t heq ht'
  rw [heq] at hs
  obtain ⟨hpre, -⟩ := hstart.run hlisten.1 hs.of_append
  rw [← selectRun, ← pollRun, hs', ht'] at hpre
  have hlinked : Linked listenfd s t := hpre
  obtain ⟨s₁, t₁, hs₁, ht₁, hlinked₁, hserves, -⟩ := hlinked.play_of_accepts hlisten.1 hr hacc
  refine ⟨s₁, t₁, hs₁, ht₁, ?_, hserves⟩
  rw [hlinked.same.calls, hlinked₁.same.calls]
  exact hserves

end Both

/-- A client is accepted, and sends a byte. -/
def twoRounds : List Round :=
  [⟨⟨.fd 4, fun _ => .closed⟩, {3}⟩, ⟨⟨.eintr, fun _ => .data [104]⟩, {4}⟩]

lemma scheduleOk_twoRounds : ScheduleOk 3 ∅ twoRounds := by
  refine ⟨⟨⟨fun c hc => ?_, fun fd bytes hread => ?_⟩, by decide, fun c _ hc => ?_⟩,
    ⟨⟨fun c hc => ?_, fun fd bytes hread => ?_⟩, by decide, fun c hin => ?_⟩, trivial⟩
  · cases hc
    decide
  · cases hread
  · cases hc
    decide
  · cases hc
  · cases hread
    decide
  · exact absurd hin (by decide)

/-- Both servers make the same calls for this client. -/
theorem selectRun_alike_pollRun_twoRounds :
    ScheduleOk 3 ∅ twoRounds ∧
    Outcome.Alike (fun s t => s.calls = t.calls) (selectRun 3 (fun _ => -1) twoRounds)
      (pollRun 3 (fun _ => ⟨0, 0, 0⟩) twoRounds) :=
  ⟨scheduleOk_twoRounds, (selectRun_alike_pollRun (by decide) (fun _ => by decide) (fun _ => rfl)
    scheduleOk_twoRounds).1⟩

end CppExample.Echo
