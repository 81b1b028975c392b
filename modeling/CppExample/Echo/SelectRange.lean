/-
# The descriptors of the select echo server

`FD_SET`, `FD_CLR` and `FD_ISSET` must not get a descriptor from `FD_SETSIZE` on.  The server
counts the free slots of `client` only, and there are `FD_SETSIZE` of them.  Four descriptors
below `FD_SETSIZE` are taken by the standard streams and by the listener.  As `accept` returns
the lowest descriptor that is not open, the first connection that is out of range is the one
that is accepted while `FD_SETSIZE - 4` are open: `inRange_iff_below`.  There are slots left for
it then.
-/
import CppExample.Echo.SelectTable
import Mathlib.Order.Bounds.Basic

namespace CppExample.Echo.SelectServer
open Lib

/-! ## The lowest descriptor -/

/-- The descriptors that are open: the standard streams, the listener and the connections. -/
def opened (listenfd : ℤ) (conns : Finset ℤ) : Finset ℤ := {0, 1, 2, listenfd} ∪ conns

/-- `accept` returns the lowest descriptor that is not open. -/
def Lowest (listenfd : ℤ) (conns : Finset ℤ) (r : Reply) : Prop :=
  ∀ c, r.accept = .fd c → IsLeast {d | 0 ≤ d ∧ d ∉ opened listenfd conns} c

/-- A round after which there is another one, with the lowest descriptor for a connection. -/
def LowestNext (listenfd : ℤ) (s t : State) : Prop :=
  ∃ p r, Reply.Ok listenfd s.conns r ∧ Lowest listenfd s.conns r ∧
    round listenfd s p r = .next t

/-- The descriptors that a connection can have in an `fd_set`. -/
noncomputable def usable (listenfd : ℤ) : Finset ℤ :=
  Finset.Ico 0 (fdSetsize : ℤ) \ {0, 1, 2, listenfd}

/-- The slots hold the connections, and all of them fit in an `fd_set`. -/
structure InRange (listenfd : ℤ) (s : State) : Prop where
  uses : Uses (fun _ => -1) fdSetsize s
  conns : s.conns ⊆ usable listenfd

variable {listenfd : ℤ} {s t : State} {p : SelectResult} {r : Reply} {conns : Finset ℤ} {c : ℤ}

lemma mem_usable_iff :
    c ∈ usable listenfd ↔ 0 ≤ c ∧ c < fdSetsize ∧ c ∉ ({0, 1, 2, listenfd} : Finset ℤ) := by
  rw [usable, Finset.mem_sdiff, Finset.mem_Ico, and_assoc]

lemma notMem_opened_iff :
    c ∉ opened listenfd conns ↔ c ∉ ({0, 1, 2, listenfd} : Finset ℤ) ∧ c ∉ conns := by
  rw [opened, Finset.mem_union, not_or]

/-- The four other descriptors are missing among `FD_SETSIZE`. -/
lemma card_usable (hlo : 2 < listenfd) (hhi : listenfd < fdSetsize) :
    (usable listenfd).card = fdSetsize - 4 := by
  have hsub : ({0, 1, 2, listenfd} : Finset ℤ) ⊆ Finset.Ico 0 (fdSetsize : ℤ) := by
    rw [fdSetsize] at hhi ⊢
    intro d hd
    simp only [Finset.mem_insert, Finset.mem_singleton] at hd
    rw [Finset.mem_Ico]
    omega
  have hfour : ({0, 1, 2, listenfd} : Finset ℤ).card = 4 := by
    have h0 : listenfd ≠ 0 := by omega
    have h1 : listenfd ≠ 1 := by omega
    have h2 : listenfd ≠ 2 := by omega
    simp [h0.symm, h1.symm, h2.symm]
  rw [usable, Finset.card_sdiff_of_subset hsub, hfour, Int.card_Ico, Int.sub_zero,
    Int.toNat_natCast]

/-- The lowest descriptor that is not open fits in an `fd_set` as long as the connections do not
have all the others. -/
lemma lt_fdSetsize_iff (hlo : 2 < listenfd) (hhi : listenfd < fdSetsize)
    (hsub : conns ⊆ usable listenfd) (hc : IsLeast {d | 0 ≤ d ∧ d ∉ opened listenfd conns} c) :
    c < fdSetsize ↔ conns.card < fdSetsize - 4 := by
  obtain ⟨⟨hnn, hnot⟩, hleast⟩ := hc
  rw [notMem_opened_iff] at hnot
  rw [← card_usable hlo hhi]
  constructor
  · intro hlt
    refine Finset.card_lt_card ⟨hsub, fun hall => hnot.2 (hall ?_)⟩
    exact mem_usable_iff.2 ⟨hnn, hlt, hnot.1⟩
  · intro hcard
    obtain ⟨d, hd, hd'⟩ := Finset.exists_mem_notMem_of_card_lt_card hcard
    obtain ⟨hdnn, hdlt, hdnot⟩ := mem_usable_iff.1 hd
    have hle : c ≤ d := hleast ⟨hdnn, notMem_opened_iff.2 ⟨hdnot, hd'⟩⟩
    exact lt_of_le_of_lt hle hdlt

/-! ## The slots -/

lemma inRange_start : InRange listenfd (State.start listenfd fun _ => -1) := by
  refine ⟨uses_start fun i _ => ?_, Finset.empty_subset _⟩
  rw [initClient]
  split <;> decide

/-- A descriptor that is found in a slot fits in an `fd_set`. -/
lemma InRange.client_lt (h : InRange listenfd s) {i : ℕ} (hi : i < fdSetsize) :
    s.client i < fdSetsize := by
  by_cases hneg : s.client i < 0
  · rw [fdSetsize]
    omega
  · have hmem := h.uses.holds.mem i (Nat.zero_le _) hi (not_lt.1 hneg)
    exact (mem_usable_iff.1 (h.conns hmem)).2.1

lemma conns_readClient_subset (s : State) (i : ℕ) (r : Reply) :
    (readClient s i r).conns ⊆ s.conns := by
  rw [readClient]
  split
  · exact Finset.erase_subset _ _
  · exact Finset.Subset.refl _

lemma InRange.readClient (h : InRange listenfd s) {i : ℕ} (hi : i < fdSetsize)
    (hfd : 0 ≤ s.client i) (r : Reply) : InRange listenfd (readClient s i r) :=
  ⟨h.uses.readClient hi hfd r, (conns_readClient_subset s i r).trans h.conns⟩

/-- The loop stays in range, if reading one connection keeps what puts the slots in range. -/
lemma readLoop_ne_outOfRange {I : State → Prop} {is : List ℕ} {rset : Finset ℤ} {nready : ℤ}
    (hread : ∀ s i, i ∈ is → 0 ≤ s.client i → I s → I (SelectServer.readClient s i r))
    (hlt : ∀ s i, i ∈ is → I s → s.client i < fdSetsize) (hs : I s) :
    readLoop r rset is nready s ≠ .outOfRange t := by
  induction is generalizing s nready with
  | nil =>
    intro h
    cases h
  | cons i is ih =>
    have hrest : ∀ s nready, I s → readLoop r rset is nready s ≠ .outOfRange t :=
      fun s nready hs => ih (fun s j hj => hread s j (List.mem_cons_of_mem _ hj))
        (fun s j hj => hlt s j (List.mem_cons_of_mem _ hj)) hs
    rw [readLoop]
    split
    · exact hrest s nready hs
    · next hfd =>
      rw [if_neg (not_le.2 (hlt s i List.mem_cons_self hs))]
      split
      · have hI := hread s i List.mem_cons_self (not_lt.1 hfd) hs
        dsimp only
        split
        · intro h
          cases h
        · exact hrest _ _ hI
      · exact hrest s nready hs

lemma InRange.readClients_ne_outOfRange (h : InRange listenfd s) {rset : Finset ℤ} {nready : ℤ} :
    readClients r rset nready s ≠ .outOfRange t := by
  have hmax := h.uses.maxidx
  have hlt : ∀ i ∈ List.range (s.maxidx + 1).toNat, i < fdSetsize := by
    intro i hi
    rw [List.mem_range] at hi
    omega
  exact readLoop_ne_outOfRange (I := InRange listenfd)
    (fun s' i hi hfd hs' => hs'.readClient (hlt i hi) hfd r)
    (fun s' i hi hs' => hs'.client_lt (hlt i hi)) h

lemma InRange.readClients (h : InRange listenfd s) {rset : Finset ℤ} {nready : ℤ}
    (ht : readClients r rset nready s = .next t) : InRange listenfd t := by
  have hmax := h.uses.maxidx
  refine readLoop_invariant (fun s' i hi hfd hs' => ?_) h ht
  rw [List.mem_range] at hi
  exact hs'.readClient (by omega) hfd r

/-! ## A round -/

/-- With free slots, what is read after a connection was put into its slot is in range. -/
lemma InRange.seat (h : InRange listenfd s) {i : ℕ} (hi : i < fdSetsize)
    (hfree : s.client i < 0) (hc : c ∈ usable listenfd) (hnew : c ∉ s.conns) :
    InRange listenfd (s.seat listenfd i c) :=
  ⟨h.uses.seat hi hfree (mem_usable_iff.1 hc).1 hnew, Finset.insert_subset hc h.conns⟩

/-- There are more slots than connections that fit in an `fd_set`. -/
lemma InRange.exists_firstFree (h : InRange listenfd s) (hlo : 2 < listenfd)
    (hhi : listenfd < fdSetsize) : ∃ i, firstFree 0 fdSetsize s.client = some i := by
  have hcard := Finset.card_le_card h.conns
  rw [card_usable hlo hhi] at hcard
  obtain ⟨j, -, hj, hneg⟩ := h.uses.holds.exists_free (n := fdSetsize) (Nat.zero_add _).le
    (by rw [fdSetsize] at hcard ⊢; omega)
  obtain ⟨i, -, hi⟩ := exists_firstFree_le (Nat.zero_le j) (by omega) hneg
  exact ⟨i, hi⟩

/-- A round that accepts `c`, by whether `c` fits in an `fd_set`. -/
lemma round_fd {i : ℕ} (hin : listenfd ∈ p.rset) (haccept : r.accept = .fd c)
    (hfree : firstFree 0 fdSetsize s.client = some i) :
    (fdSetsize ≤ c → ∃ t, round listenfd s p r = .outOfRange t) ∧
    (c < fdSetsize → round listenfd s p r
      = if p.nready - 1 ≤ 0 then .next (s.seat listenfd i c)
        else readClients r p.rset (p.nready - 1) (s.seat listenfd i c)) := by
  constructor
  · intro hle
    rw [SelectServer.round, if_pos hin]
    simp only [haccept, hfree]
    rw [if_pos hle]
    exact ⟨_, rfl⟩
  · intro hlt
    rw [SelectServer.round, if_pos hin]
    simp only [haccept, hfree]
    rw [if_neg (not_le.2 hlt)]
    rfl

/-- One round: it keeps everything in range as long as it is not the one that accepts a
connection while `FD_SETSIZE - 4` are open. -/
lemma InRange.round (h : InRange listenfd s) (hlo : 2 < listenfd) (hhi : listenfd < fdSetsize)
    (hlow : Lowest listenfd s.conns r) :
    (∀ t, round listenfd s p r = .next t → InRange listenfd t) ∧
      ((∀ t, round listenfd s p r ≠ .outOfRange t) ↔
        (Accepts listenfd p r → s.conns.card < fdSetsize - 4)) := by
  by_cases hacc : Accepts listenfd p r
  · obtain ⟨hin, c, haccept⟩ := hacc
    obtain ⟨i, hfree⟩ := h.exists_firstFree hlo hhi
    obtain ⟨hout, hnext⟩ := round_fd hin haccept hfree
    have hlt := lt_fdSetsize_iff hlo hhi h.conns (hlow c haccept)
    obtain ⟨⟨hnn, hnot⟩, -⟩ := hlow c haccept
    rw [notMem_opened_iff] at hnot
    by_cases hc : c < fdSetsize
    · have hseat : InRange listenfd (s.seat listenfd i c) :=
        h.seat (firstFree_eq_some hfree).2.1 (firstFree_eq_some hfree).2.2
          (mem_usable_iff.2 ⟨hnn, hc, hnot.1⟩) hnot.2
      rw [hnext hc]
      refine ⟨fun t ht => ?_, iff_of_true (fun t ht => ?_) fun _ => hlt.1 hc⟩
      · split at ht
        · obtain rfl := Outcome.next.inj ht
          exact hseat
        · exact hseat.readClients ht
      · split at ht
        · cases ht
        · exact hseat.readClients_ne_outOfRange ht
    · obtain ⟨u, hu⟩ := hout (not_lt.1 hc)
      rw [hu]
      refine ⟨fun t ht => (nomatch ht), iff_of_false (fun hne => hne u rfl) fun hcard => ?_⟩
      exact hc (hlt.2 (hcard ⟨hin, c, haccept⟩))
  · -- no connection comes
    refine ⟨fun t ht => ?_, iff_of_true (fun t ht => ?_) fun hacc' => absurd hacc' hacc⟩ <;>
      rw [SelectServer.round] at ht
    · split at ht
      · next hin =>
        dsimp only at ht
        split at ht
        · obtain rfl := Outcome.next.inj ht
          exact ⟨⟨h.uses.holds, h.uses.maxidx, h.uses.above, h.uses.rest, h.uses.allset⟩, h.conns⟩
        · cases ht
        · next c haccept => exact absurd ⟨hin, c, haccept⟩ hacc
      · exact h.readClients ht
    · split at ht
      · next hin =>
        dsimp only at ht
        split at ht
        · cases ht
        · cases ht
        · next c haccept => exact absurd ⟨hin, c, haccept⟩ hacc
      · exact h.readClients_ne_outOfRange ht

/-! ## All rounds -/

lemma inRange_of_reachable (hlo : 2 < listenfd) (hhi : listenfd < fdSetsize)
    (h : Reachable (· = State.start listenfd fun _ => -1) (LowestNext listenfd) s) :
    InRange listenfd s := by
  refine Reachable.invariant ?_ ?_ h
  · rintro s rfl
    exact inRange_start
  · rintro s t - hs ⟨p, r, -, hlow, hround⟩
    exact (hs.round hlo hhi hlow).1 t hround

/-- **The range of an `fd_set`.**  In every run with `client` initialised, whatever round comes
next: it keeps to the descriptors below `FD_SETSIZE` exactly if it does not accept a connection
while `FD_SETSIZE - 4` are open. -/
theorem inRange_iff_below (hlo : 2 < listenfd) (hhi : listenfd < fdSetsize)
    (h : Reachable (· = State.start listenfd fun _ => -1) (LowestNext listenfd) s)
    (hlow : Lowest listenfd s.conns r) :
    (∀ c ∈ s.conns, c < fdSetsize) ∧
      ((∀ t, round listenfd s p r ≠ .outOfRange t) ↔
        (Accepts listenfd p r → s.conns.card < fdSetsize - 4)) := by
  have hs := inRange_of_reachable hlo hhi h
  exact ⟨fun c hc => (mem_usable_iff.1 (hs.conns hc)).2.1, (hs.round hlo hhi hlow).2⟩

/-! ## A server that fills the set -/

/-- The lowest descriptor behind those of the connections. -/
lemma lowest_next (k : ℕ) :
    Lowest 3 (Finset.Ico 4 (4 + k : ℤ)) ⟨.fd (4 + k), fun _ => .closed⟩ := by
  intro c hc
  obtain rfl := EpollServer.AcceptResult.fd.inj hc
  simp only [opened, Finset.mem_union, Finset.mem_insert, Finset.mem_singleton, Finset.mem_Ico]
  constructor
  · rw [Set.mem_ofPred_eq]
    omega
  · rintro d ⟨hd, hnot⟩
    omega

/-- The connections that fit are all accepted. -/
lemma exists_run_lowest {k : ℕ} (hk : k ≤ fdSetsize - 4) :
    ∃ s, Reachable (· = State.start 3 fun _ => -1) (LowestNext 3) s ∧
      s.conns = Finset.Ico 4 (4 + k : ℤ) := by
  refine exists_run_accepting rfl (fun k hk s hs hconns => ?_) hk
  have huses := (inRange_of_reachable (by decide) (by decide) hs).uses
  have hcard : s.conns.card = k := by
    rw [hconns, Int.card_Ico]
    omega
  have hnew : (4 + k : ℤ) ∉ s.conns := by
    rw [hconns]
    simp
  have hreply := @replyOk_accept 3 _ _ (by omega) (by omega) hnew
  have hlow := lowest_next k
  rw [← hconns] at hlow
  rw [fdSetsize] at hk
  obtain ⟨i, hround⟩ := @Uses.exists_accept 3 _ _ _ huses le_rfl
    (by rw [hcard, fdSetsize]; omega) (4 + k) (by rw [fdSetsize]; omega)
  exact ⟨_, ⟨_, _, hreply, hlow, hround⟩, rfl⟩

/-- The 1021st connection gets the descriptor 1024, and goes into a free slot. -/
theorem outOfRangeClient :
    ∃ s p r t, Reachable (· = State.start 3 fun _ => -1) (LowestNext 3) s ∧
      Reply.Ok 3 s.conns r ∧ Lowest 3 s.conns r ∧ r.accept = .fd 1024 ∧
      (∃ i < fdSetsize, s.client i < 0) ∧ round 3 s p r = .outOfRange t := by
  obtain ⟨s, hs, hconns⟩ := exists_run_lowest le_rfl
  have hrange := inRange_of_reachable (by decide) (by decide) hs
  obtain ⟨i, hfree⟩ := hrange.exists_firstFree (by decide) (by decide)
  have hlow := lowest_next (fdSetsize - 4)
  rw [← hconns] at hlow
  have hnew : ((4 + (fdSetsize - 4 : ℕ) : ℤ)) ∉ s.conns := by
    rw [hconns]
    simp
  have hreply := @replyOk_accept 3 _ _ (by decide) (by decide) hnew
  obtain ⟨t, ht⟩ := (@round_fd 3 s ⟨1, {3}⟩ ⟨.fd _, fun _ => .closed⟩ _ i
    (Finset.mem_singleton_self _) rfl hfree).1
    (show (fdSetsize : ℤ) ≤ 4 + (fdSetsize - 4 : ℕ) by decide)
  exact ⟨s, _, _, t, hs, hreply, hlow, rfl,
    ⟨i, (firstFree_eq_some hfree).2.1, (firstFree_eq_some hfree).2.2⟩, ht⟩

/-- The 1020th connection gets the descriptor 1023, the last one of the set. -/
theorem inRange_lastClient :
    ∃ s : State, s.conns = Finset.Ico 4 1023 ∧ (∀ c ∈ s.conns, c < fdSetsize) ∧
      ∀ t, round 3 s ⟨1, {3}⟩ ⟨.fd 1023, fun _ => .closed⟩ ≠ .outOfRange t := by
  obtain ⟨s, hs, hconns⟩ := @exists_run_lowest (fdSetsize - 5) (by decide)
  have hlow := lowest_next (fdSetsize - 5)
  have hlast : (4 + (fdSetsize - 5 : ℕ) : ℤ) = 1023 := rfl
  rw [hlast] at hconns hlow
  rw [← hconns] at hlow
  obtain ⟨hbelow, hround⟩ := inRange_iff_below (p := ⟨1, {3}⟩) (by decide) (by decide) hs hlow
  refine ⟨s, hconns, hbelow, hround.2 fun _ => ?_⟩
  rw [hconns, Int.card_Ico]
  decide

end CppExample.Echo.SelectServer
