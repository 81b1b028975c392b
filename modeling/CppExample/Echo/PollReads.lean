/-
# The poll echo server reads what is ready

The `revents` of `client` are not initialised, and a connection that was just accepted is
visited in the same round.  Its entry was free when `poll` was called.  If it was among the
entries up to `maxidx`, then `poll` has cleared its `revents`.  Otherwise it is behind all the
entries that were polled, and the loop over the entries, which counts `nready` down, ends with
the last one that was reported.  So whatever was in the memory, a round reads the connections
that its call of `poll` reported, and no others: `reads_eq_reported`.
-/
import CppExample.Echo.Equivalence

namespace CppExample.Echo

/-- The state in which a round ends. -/
def Outcome.state {S : Type} : Outcome S → S
  | .next s => s
  | .acceptError s => s
  | .tooManyClients s => s
  | .outOfRange s => s

namespace PollServer
open Lib

/-- What `poll` may report, when readability is the only event.  It clears the `revents` of the
free entries, and returns the number of the entries that have an event.  When it fails, no entry
has one. -/
structure PollOk (s : State) (p : PollResult) : Prop where
  revents : ∀ i, i ≤ s.maxidx → p.revents i = 0 ∨ p.revents i = pollrdnorm
  free : ∀ i, i ≤ s.maxidx → s.fds i < 0 → p.revents i = 0
  nready : p.nready = ((List.range (s.maxidx + 1)).filter fun i => p.revents i ≠ 0).length ∨
    p.nready < 0 ∧ ∀ i, i ≤ s.maxidx → p.revents i = 0

/-- The connections that are reported, in the order of their entries. -/
def State.reported (s : State) (p : PollResult) : List ℤ :=
  ((List.range' 1 s.maxidx).filter fun i => p.revents i = pollrdnorm).map s.fds

variable {listenfd : ℤ} {s t : State} {p : PollResult} {r : Reply} {i : ℕ} {nready : ℤ}

/-! ## The loop over the entries -/

/-- When nothing is ready, nothing happens. -/
lemma readLoop_of_forall_not_isReady {is : List ℕ} (h : ∀ i ∈ is, ¬ t.isReady i = true) :
    readLoop r is nready t = t := by
  induction is with
  | nil => rfl
  | cons i is ih =>
    rw [readLoop_of_not_isReady (h i List.mem_cons_self)]
    exact ih fun j hj => h j (List.mem_cons_of_mem _ hj)

/-- The loop ends with the last entry that is ready, and does not look at those behind it. -/
lemma readLoop_append {is rest : List ℕ} (hnd : is.Nodup) (hpos : 0 < nready)
    (hn : nready = (is.filter t.isReady).length) :
    readLoop r (is ++ rest) nready t = readLoop r is nready t := by
  induction is generalizing t nready with
  | nil =>
    simp only [List.filter_nil, List.length_nil, Nat.cast_zero] at hn
    omega
  | cons i is ih =>
    obtain ⟨hi, hnd⟩ := List.nodup_cons.1 hnd
    rw [List.cons_append]
    by_cases hready : t.isReady i = true
    · rw [List.filter_cons_of_pos hready, List.length_cons] at hn
      rw [readLoop_of_isReady hready, readLoop_of_isReady hready]
      split
      · rfl
      · have hfilter := filter_isReady_readClient t r hi
        exact ih hnd (by omega) (by rw [hfilter]; omega)
    · rw [List.filter_cons_of_neg hready] at hn
      rw [readLoop_of_not_isReady hready, readLoop_of_not_isReady hready]
      exact ih hnd hpos hn

/-- With all that are ready among the first `k` entries, the loop reads these. -/
lemma exists_reads {k : ℕ} (hn : nready = ((List.range' 1 k).filter t.isReady).length)
    (hk : k = t.maxidx ∨ k ≤ t.maxidx ∧ 0 < nready) :
    ∃ new, (readClients r nready t).calls = t.calls ++ new ∧
      readsOf new = ((List.range' 1 k).filter t.isReady).map t.fds := by
  have hloop : readClients r nready t = readLoop r (List.range' 1 k) nready t := by
    rcases hk with rfl | ⟨hk, hpos⟩
    · rfl
    · have hsplit : List.range' 1 t.maxidx
          = List.range' 1 k ++ List.range' (1 + k) (t.maxidx - k) := by
        rw [List.range'_append_1]
        congr 1
        omega
      rw [readClients, hsplit]
      exact readLoop_append List.nodup_range' hpos hn
  obtain ⟨new, hcalls, hreads, -⟩ := readLoop_spec (r := r) List.nodup_range' hn
  exact ⟨new, by rw [hloop, hcalls], hreads⟩

/-! ## The report -/

/-- The entries that are ready after `poll` are those that it reported. -/
lemma PollOk.isReady_poll (hp : PollOk s p) (hi : i ≤ s.maxidx) :
    (s.poll p).isReady i = decide (p.revents i = pollrdnorm) := by
  have hfds : (s.poll p).fds i = s.fds i := by rw [fds_poll]
  rw [State.isReady, PollFd.readable, client_poll s p hi, hfds]
  rcases hp.revents i hi with h0 | h1
  · simp [h0, pollrdnorm]
  · have hfd : 0 ≤ s.fds i := by
      by_contra hneg
      have h0 := hp.free i hi (not_le.1 hneg)
      rw [h1] at h0
      exact absurd h0 (by decide)
    simp [h1, hfd, pollrdnorm]

/-- The count of `poll`, with the listener apart. -/
lemma PollOk.nready_eq (hp : PollOk s p) :
    (p.nready = (if p.revents 0 = pollrdnorm then 1 else 0) + (s.reported p).length) ∨
      (p.nready < 0 ∧ ∀ i, i ≤ s.maxidx → p.revents i = 0) := by
  refine hp.nready.imp_left fun hn => ?_
  have hrest : (List.range' 1 s.maxidx).filter (fun i => p.revents i ≠ 0)
      = (List.range' 1 s.maxidx).filter fun i => p.revents i = pollrdnorm := by
    refine List.filter_congr fun i hi => ?_
    rw [List.mem_range'_1] at hi
    rcases hp.revents i (by omega) with h | h
    · simp [h, pollrdnorm]
    · simp [h, pollrdnorm]
  rw [hn, State.reported, List.length_map, List.range_eq_range', List.range'_succ, Nat.zero_add,
    List.filter_cons, hrest]
  rcases hp.revents 0 (Nat.zero_le _) with h | h
  · simp [h, pollrdnorm]
  · simp [h, pollrdnorm, add_comm]

lemma PollOk.filter_isReady (hp : PollOk s p) :
    (List.range' 1 s.maxidx).filter (s.poll p).isReady
      = (List.range' 1 s.maxidx).filter fun i => p.revents i = pollrdnorm := by
  refine List.filter_congr fun i hi => ?_
  rw [List.mem_range'_1] at hi
  exact hp.isReady_poll (by omega)

/-! ## A round -/

/-- The server after a connection was accepted and put into entry `i`. -/
def State.seat (s : State) (listenfd : ℤ) (i : ℕ) (c : ℤ) : State :=
  State.put { s with calls := s.calls ++ [.accept listenfd], conns := insert c s.conns } i c

/-- The new connection is not among the entries that are ready and were polled. -/
lemma PollOk.filter_isReady_seat (hp : PollOk s p) (hfree : s.fds i < 0) (c : ℤ) :
    (List.range' 1 s.maxidx).filter ((s.poll p).seat listenfd i c).isReady
      = (List.range' 1 s.maxidx).filter fun i => p.revents i = pollrdnorm := by
  refine List.filter_congr fun j hj => ?_
  rw [List.mem_range'_1] at hj
  by_cases hji : j = i
  · -- its entry was polled while it was free
    subst hji
    have h0 := hp.free j (by omega) hfree
    rw [State.isReady, PollFd.readable]
    simp [State.seat, State.put, client_poll s p (show j ≤ s.maxidx by omega), h0, pollrdnorm]
  · rw [← hp.isReady_poll (by omega), State.isReady, State.isReady, State.fds, State.fds]
    simp only [State.seat, State.put, Function.update_of_ne hji]

/-- A round without `accept` reads what was reported. -/
lemma PollOk.exists_reads (hp : PollOk s p) (h0 : ¬ p.revents 0 = pollrdnorm) :
    ∃ new, (readClients r p.nready (s.poll p)).calls = s.calls ++ new ∧
      readsOf new = s.reported p := by
  have hreported : ((List.range' 1 s.maxidx).filter (s.poll p).isReady).map (s.poll p).fds
      = s.reported p := by
    rw [hp.filter_isReady, fds_poll]
    rfl
  rcases hp.nready_eq with hn | ⟨-, hzero⟩
  · rw [if_neg h0, zero_add, ← hreported, List.length_map] at hn
    obtain ⟨new, hcalls, hreads⟩ := @PollServer.exists_reads (s.poll p) r _ s.maxidx hn (Or.inl rfl)
    exact ⟨new, hcalls, by rw [hreads, hreported]⟩
  · -- `poll` has failed
    have hnil : ∀ i ∈ List.range' 1 s.maxidx, ¬ (s.poll p).isReady i = true := by
      intro i hi
      rw [List.mem_range'_1] at hi
      rw [hp.isReady_poll (by omega), hzero i (by omega)]
      decide
    refine ⟨[], ?_, ?_⟩
    · have hloop : readClients r p.nready (s.poll p) = s.poll p :=
        readLoop_of_forall_not_isReady hnil
      rw [hloop, List.append_nil]
      rfl
    · rw [← hreported, List.filter_eq_nil_iff.2 hnil]
      rfl

/-- A round that puts a new connection into entry `i` reads what was reported. -/
lemma PollOk.exists_reads_seat (hp : PollOk s p) (h0 : p.revents 0 = pollrdnorm)
    (hfree : s.fds i < 0) (c : ℤ) :
    ∃ new, (if p.nready - 1 ≤ 0 then (s.poll p).seat listenfd i c
        else readClients r (p.nready - 1) ((s.poll p).seat listenfd i c)).calls
          = s.calls ++ .accept listenfd :: new ∧ readsOf new = s.reported p := by
  have hn : p.nready = 1 + (s.reported p).length := by
    rcases hp.nready_eq with hn | ⟨-, hzero⟩
    · rw [hn, if_pos h0]
    · rw [hzero 0 (Nat.zero_le _)] at h0
      exact absurd h0 (by decide)
  split
  · next hle =>
    have hnil : s.reported p = [] := List.length_eq_zero_iff.1 (by omega)
    exact ⟨[], rfl, by rw [hnil]; rfl⟩
  · next hpos =>
    -- the loop ends before it comes to an entry that was not polled
    have hcount : p.nready - 1
        = ((List.range' 1 s.maxidx).filter ((s.poll p).seat listenfd i c).isReady).length := by
      rw [hp.filter_isReady_seat hfree, hn, State.reported, List.length_map]
      omega
    have hmax : s.maxidx ≤ ((s.poll p).seat listenfd i c).maxidx := by
      simp only [State.seat, State.put, State.poll]
      split <;> omega
    obtain ⟨new, hcalls, hreads⟩ := @PollServer.exists_reads _ r _ s.maxidx hcount
      (Or.inr ⟨hmax, not_le.1 hpos⟩)
    refine ⟨new, ?_, ?_⟩
    · rw [hcalls]
      simp [State.seat, State.put, State.poll]
    · rw [hreads, hp.filter_isReady_seat hfree, State.reported]
      refine List.map_congr_left fun j hj => ?_
      obtain ⟨hj, hrev⟩ := List.mem_filter.1 hj
      rw [List.mem_range'_1] at hj
      have hji : j ≠ i := by
        rintro rfl
        rw [hp.free j (by omega) hfree] at hrev
        exact absurd hrev (by decide)
      have hfds : ((s.poll p).seat listenfd i c).fds = Function.update (s.poll p).fds i c :=
        fds_put _ i c
      rw [hfds, Function.update_of_ne hji, fds_poll]

/-- One round, whatever the state: what is read was reported, and if there is a next round and
`accept` did not fail, then all that was reported is read, in the order of the entries. -/
lemma PollOk.round (hp : PollOk s p) :
    ∃ new, (round listenfd s p r).state.calls = s.calls ++ new ∧
      (∀ fd ∈ readsOf new, fd ∈ s.reported p) ∧
      ∀ t, round listenfd s p r = .next t →
        (p.revents 0 = pollrdnorm → ∃ c, r.accept = .fd c) → readsOf new = s.reported p := by
  have hlisten : ((s.poll p).client 0).readable = true ↔ p.revents 0 = pollrdnorm := by
    rw [client_poll s p (Nat.zero_le _), PollFd.readable]
    rcases hp.revents 0 (Nat.zero_le _) with h | h
    · simp [h, pollrdnorm]
    · simp [h, pollrdnorm]
  rw [PollServer.round, handle]
  split
  · next hin =>
    rw [hlisten] at hin
    dsimp only
    split
    · next heintr =>
      refine ⟨[.accept listenfd], rfl, by simp [readsOf], fun t _ haccept => ?_⟩
      obtain ⟨c, hc⟩ := haccept hin
      rw [heintr] at hc
      cases hc
    · refine ⟨[.accept listenfd], rfl, by simp [readsOf], fun t ht => ?_⟩
      cases ht
    · next c haccept =>
      split
      · refine ⟨[.accept listenfd], rfl, by simp [readsOf], fun t ht => ?_⟩
        cases ht
      · next i hsome =>
        have hfree := (firstFree_eq_some hsome).2.2
        have hfds : State.fds { s.poll p with
            calls := (s.poll p).calls ++ [.accept listenfd], conns := insert c (s.poll p).conns }
            = s.fds := fds_poll s p
        rw [hfds] at hfree
        obtain ⟨new, hcalls, hreads⟩ :=
          @PollOk.exists_reads_seat listenfd s p r i hp hin hfree c
        refine ⟨.accept listenfd :: new, ?_, ?_, fun t _ _ => hreads⟩
        · rw [← hcalls]
          simp only [State.seat]
          split <;> rfl
        · intro fd hfd
          rw [← hreads]
          exact hfd
  · next hnot =>
    rw [hlisten] at hnot
    obtain ⟨new, hcalls, hreads⟩ := hp.exists_reads (r := r) hnot
    refine ⟨new, hcalls, fun fd hfd => ?_, fun t _ _ => hreads⟩
    rw [← hreads]
    exact hfd

/-- **What a round reads.**  In every run, whatever was in the memory of `client` before the
loop: the descriptors that the next round reads are connections that its call of `poll`
reported, and each of them is read once if there is another round and `accept`, if it was
called, succeeded. -/
theorem reads_eq_reported (h : Reach listenfd s) (hp : PollOk s p) (r : Reply) :
    ∃ new, (round listenfd s p r).state.calls = s.calls ++ new ∧
      (∀ fd ∈ readsOf new, fd ∈ s.reported p ∧ fd ∈ s.conns) ∧
      ∀ t, round listenfd s p r = .next t →
        (p.revents 0 = pollrdnorm → ∃ c, r.accept = .fd c) →
          readsOf new = s.reported p ∧ (readsOf new).Nodup := by
  obtain ⟨new, hcalls, hsub, hall⟩ := @PollOk.round listenfd s p r hp
  have htable := h.table
  have hlt := htable.maxidx_lt
  -- a reported entry has an open connection
  have hentry : ∀ i ∈ (List.range' 1 s.maxidx).filter fun i => p.revents i = pollrdnorm,
      1 ≤ i ∧ i ≤ s.maxidx ∧ 0 ≤ s.fds i := by
    intro i hi
    obtain ⟨hi, hrev⟩ := List.mem_filter.1 hi
    rw [List.mem_range'_1] at hi
    refine ⟨hi.1, by omega, ?_⟩
    by_contra hneg
    rw [hp.free i (by omega) (not_le.1 hneg)] at hrev
    exact absurd hrev (by decide)
  refine ⟨new, hcalls, fun fd hfd => ⟨hsub fd hfd, ?_⟩, fun t ht haccept => ?_⟩
  · obtain ⟨i, hi, rfl⟩ := List.mem_map.1 (hsub fd hfd)
    obtain ⟨hlo, hhi, hnn⟩ := hentry i hi
    exact htable.holds.mem i hlo (by omega) hnn
  · have hreads := hall t ht haccept
    refine ⟨hreads, ?_⟩
    rw [hreads]
    refine (List.Nodup.filter _ List.nodup_range').map_on fun i hi j hj heq => ?_
    obtain ⟨hlo, hhi, hnn⟩ := hentry i hi
    obtain ⟨hlo', hhi', -⟩ := hentry j hj
    exact htable.holds.inj i j hlo (by omega) hlo' (by omega) hnn heq

/-- The `revents` of all the entries were readable before the loop.  A second client comes while
the first one, 4, is ready, and only the first one is read. -/
theorem reads_firstClient :
    ∃ s : State, s.conns = {4} ∧ (s.client 2).readable = true ∧
      s.reported ⟨2, fun _ => 0x040⟩ = [4] ∧
      ∃ new,
        (round 3 s ⟨2, fun _ => 0x040⟩ ⟨.fd 5, fun _ => .closed⟩).state.calls = s.calls ++ new ∧
        (∀ fd ∈ readsOf new, fd ∈ s.reported ⟨2, fun _ => 0x040⟩ ∧ fd ∈ s.conns) ∧
        ∀ t, round 3 s ⟨2, fun _ => 0x040⟩ ⟨.fd 5, fun _ => .closed⟩ = .next t →
          ((0x040 : UInt16) = pollrdnorm → ∃ c, EpollServer.AcceptResult.fd 5 = .fd c) →
            readsOf new = s.reported ⟨2, fun _ => 0x040⟩ ∧ (readsOf new).Nodup := by
  let start := State.start 3 fun _ => ⟨0, 0, pollrdnorm⟩
  let p : PollResult := ⟨1, fun i => if i = 0 then pollrdnorm else 0⟩
  let s := (start.poll p).seat 3 1 4
  have hr : Reply.Ok 3 start.conns ⟨.fd 4, fun _ => .closed⟩ := by
    refine ⟨fun c hc => ?_, fun fd bytes hread => by cases hread⟩
    obtain rfl : 4 = c := EpollServer.AcceptResult.fd.inj hc
    decide
  have hs : round 3 start p ⟨.fd 4, fun _ => .closed⟩ = .next s := by
    have hlisten : ((start.poll p).client 0).readable = true := by decide
    rw [round, handle, if_pos hlisten]
    rfl
  have hreach : Reach 3 s := (Reachable.of_init ⟨_, rfl⟩).tail ⟨p, _, hr, hs⟩
  have hp : PollOk s ⟨2, fun _ => 0x040⟩ := by
    refine ⟨fun i _ => Or.inr rfl, fun i hi hfd => ?_, Or.inl (by decide)⟩
    have hi : i ≤ 1 := hi
    interval_cases i
    · exact absurd hfd (by decide)
    · exact absurd hfd (by decide)
  exact ⟨s, rfl, by decide, by decide, reads_eq_reported hreach hp _⟩

end PollServer

end CppExample.Echo
