/-
# The table of the select echo server

`memset` initialises the first 256 slots of `client` only.  The others have what was in the
memory, and a slot that happens to be non-negative is taken for a connection.  As slots are
filled first fit, this does no harm as long as there are fewer connections than slots in front
of the first one that is not negative: `table_iff_initialised`.

With one connection more, the server either refuses it, though there are slots enough, or puts
it behind a slot that has no connection of its own: `Uses.exists_round_not_ok`.
-/
import CppExample.Echo.SelectServer
import CppExample.Lib.Run

namespace CppExample.Echo.SelectServer
open Lib

/-! ## Runs -/

/-- A round after which there is another one. -/
def Next (listenfd : ℤ) (s t : State) : Prop :=
  ∃ p r, Reply.Ok listenfd s.conns r ∧ round listenfd s p r = .next t

/-- What should be so when `select` is called: the slots up to `maxidx` are free or have open
connections that are watched, no connection is in two of them, and every connection is in one. -/
structure TableOk (s : State) : Prop where
  slot : ∀ i : ℕ, i ≤ s.maxidx → s.client i < 0 ∨ s.client i ∈ s.conns ∧ s.client i ∈ s.allset
  inj : ∀ i j : ℕ, i ≤ s.maxidx → j ≤ s.maxidx → s.client i ∈ s.conns →
    s.client i = s.client j → i = j
  conn : ∀ c ∈ s.conns, ∃ i : ℕ, i ≤ s.maxidx ∧ s.client i = c

/-- The next round leaves the table as it should be, and a connection is refused only when
`FD_SETSIZE` connections are open. -/
def RoundOk (listenfd : ℤ) (s : State) (p : SelectResult) (r : Reply) : Prop :=
  (∀ t, round listenfd s p r = .next t → TableOk t) ∧
    ∀ t, round listenfd s p r = .tooManyClients t → fdSetsize ≤ s.conns.card

/-- There are fewer connections than slots in front of any slot that was not negative before the
loop. -/
def Initialised (garbage : ℕ → ℤ) (s : State) : Prop :=
  ∀ i, i < fdSetsize → 0 ≤ initClient garbage i → s.conns.card < i

/-- In this round a connection is accepted. -/
def Accepts (listenfd : ℤ) (p : SelectResult) (r : Reply) : Prop :=
  listenfd ∈ p.rset ∧ ∃ c, r.accept = .fd c

/-- A round in which a connection is accepted only if there are slots for it in front of those
that were not initialised. -/
def InitialisedNext (listenfd : ℤ) (garbage : ℕ → ℤ) (s t : State) : Prop :=
  ∃ p r, Reply.Ok listenfd s.conns r ∧ (Accepts listenfd p r → Initialised garbage s) ∧
    round listenfd s p r = .next t

variable {listenfd : ℤ} {garbage : ℕ → ℤ} {s t : State} {p : SelectResult} {r : Reply} {i n : ℕ}

/-- The server after a connection was accepted and put into slot `i`. -/
def State.seat (s : State) (listenfd : ℤ) (i : ℕ) (c : ℤ) : State :=
  State.put { s with calls := s.calls ++ [.accept listenfd], conns := insert c s.conns } i c

/-! ## The slots that are used -/

/-- Only the first `n` slots, which were negative, are used; they have the open connections. -/
structure Uses (garbage : ℕ → ℤ) (n : ℕ) (s : State) : Prop where
  holds : Holds 0 n s.client s.conns
  maxidx : s.maxidx < n
  above : ∀ i : ℕ, s.maxidx < i → i < n → s.client i < 0
  rest : ∀ i, n ≤ i → s.client i = initClient garbage i
  allset : s.conns ⊆ s.allset

/-- The number of slots in front of the first one that is not negative. -/
lemma exists_usable (garbage : ℕ → ℤ) :
    ∃ n ≤ fdSetsize, (∀ i < n, initClient garbage i < 0) ∧
      (n < fdSetsize → 0 ≤ initClient garbage n) := by
  cases h : (List.range fdSetsize).find? fun i => 0 ≤ initClient garbage i with
  | none =>
    refine ⟨fdSetsize, le_rfl, fun i hi => ?_, fun hlt => absurd hlt (lt_irrefl _)⟩
    have hneg := List.find?_eq_none.1 h i (List.mem_range.2 hi)
    rw [decide_eq_true_eq] at hneg
    exact not_le.1 hneg
  | some n =>
    obtain ⟨hn, hlt, hleast⟩ := List.find?_range_eq_some.1 h
    refine ⟨n, (List.mem_range.1 hlt).le, fun i hi => ?_, fun _ => of_decide_eq_true hn⟩
    have hneg := hleast i hi
    rw [Bool.not_eq_true', decide_eq_false_iff_not] at hneg
    exact not_le.1 hneg

lemma Uses.table (h : Uses garbage n s) : TableOk s := by
  have hmax := h.maxidx
  refine ⟨fun i hi => ?_, fun i j hi hj hconn heq => ?_, fun c hc => ?_⟩
  · by_cases hneg : s.client i < 0
    · exact Or.inl hneg
    · have hmem := h.holds.mem i (Nat.zero_le _) (by omega) (not_lt.1 hneg)
      exact Or.inr ⟨hmem, h.allset hmem⟩
  · exact h.holds.inj i j (Nat.zero_le _) (by omega) (Nat.zero_le _) (by omega)
      (h.holds.nonneg _ hconn) heq
  · obtain ⟨i, -, hi, rfl⟩ := h.holds.slot c hc
    refine ⟨i, ?_, rfl⟩
    by_contra hgt
    exact absurd (h.above i (not_le.1 hgt) hi) (not_lt.2 (h.holds.nonneg _ hc))

lemma uses_start (hneg : ∀ i < n, initClient garbage i < 0) :
    Uses garbage n (State.start listenfd garbage) := by
  refine ⟨holds_empty fun i _ hi => hneg i hi, ?_, fun i _ hi => hneg i hi, fun i _ => rfl,
    Finset.empty_subset _⟩
  show (-1 : ℤ) < n
  omega

/-- A connection that is gone leaves its slot free. -/
lemma Uses.readClient (h : Uses garbage n s) (hi : i < n) (hfd : 0 ≤ s.client i) (r : Reply) :
    Uses garbage n (readClient s i r) := by
  rw [SelectServer.readClient]
  split
  · refine ⟨h.holds.clear (Nat.zero_le _) hi hfd (by decide), h.maxidx, fun j hj hjn => ?_,
      fun j hj => ?_, Finset.erase_subset_erase _ h.allset⟩
    · by_cases hji : j = i
      · simp [hji]
      · simpa [hji] using h.above j hj hjn
    · have hji : j ≠ i := by omega
      simpa [hji] using h.rest j hj
  · exact ⟨h.holds, h.maxidx, h.above, h.rest, h.allset⟩

lemma maxidx_readClient (s : State) (i : ℕ) (r : Reply) : (readClient s i r).maxidx = s.maxidx := by
  rw [readClient]
  split <;> rfl

/-- What reading one connection keeps is kept by the loop. -/
lemma readLoop_invariant {I : State → Prop} {is : List ℕ} {rset : Finset ℤ} {nready : ℤ}
    (hread : ∀ s i, i ∈ is → 0 ≤ s.client i → I s → I (readClient s i r)) (hs : I s)
    (hloop : readLoop r rset is nready s = .next t) : I t := by
  induction is generalizing s nready with
  | nil =>
    obtain rfl := Outcome.next.inj hloop
    exact hs
  | cons i is ih =>
    have hrest : ∀ s j, j ∈ is → 0 ≤ s.client j → I s → I (readClient s j r) :=
      fun s j hj => hread s j (List.mem_cons_of_mem _ hj)
    rw [readLoop] at hloop
    split at hloop
    · exact ih hrest hs hloop
    · next hfd =>
      split at hloop
      · cases hloop
      · split at hloop
        · have hI := hread s i List.mem_cons_self (not_lt.1 hfd) hs
          dsimp only at hloop
          split at hloop
          · obtain rfl := Outcome.next.inj hloop
            exact hI
          · exact ih hrest hI hloop
        · exact ih hrest hs hloop

/-- The loop refuses no connection. -/
lemma readLoop_ne_tooManyClients (r : Reply) (rset : Finset ℤ) (is : List ℕ) (nready : ℤ)
    (s t : State) : readLoop r rset is nready s ≠ .tooManyClients t := by
  induction is generalizing s nready with
  | nil =>
    intro h
    cases h
  | cons i is ih =>
    rw [readLoop]
    split
    · exact ih nready s
    · split
      · intro h
        cases h
      · split
        · dsimp only
          split
          · intro h
            cases h
          · exact ih _ _
        · exact ih nready s

lemma readClients_ne_tooManyClients (r : Reply) (rset : Finset ℤ) (nready : ℤ) (s t : State) :
    readClients r rset nready s ≠ .tooManyClients t :=
  readLoop_ne_tooManyClients r rset _ nready s t

lemma Uses.readClients (h : Uses garbage n s) {rset : Finset ℤ} {nready : ℤ}
    (ht : readClients r rset nready s = .next t) : Uses garbage n t := by
  refine readLoop_invariant (fun s' i hi hfd hs' => ?_) h ht
  have hmax := h.maxidx
  rw [List.mem_range] at hi
  exact hs'.readClient (by omega) hfd r

/-- A new connection is put into a free slot. -/
lemma Uses.seat (h : Uses garbage n s) (hi : i < n) (hfree : s.client i < 0) {c : ℤ} (hc : 0 ≤ c)
    (hnew : c ∉ s.conns) : Uses garbage n (s.seat listenfd i c) := by
  have hmax := h.maxidx
  refine ⟨h.holds.put (Nat.zero_le _) hi hfree hc hnew, ?_, fun j hj hjn => ?_, fun j hj => ?_,
    Finset.insert_subset_insert _ h.allset⟩
  · simp only [State.seat, State.put]
    split <;> omega
  · simp only [State.seat, State.put] at hj ⊢
    have hlt : i < j ∧ s.maxidx < j := by
      split at hj <;> omega
    rw [Function.update_of_ne (by omega)]
    exact h.above j hlt.2 hjn
  · simp only [State.seat, State.put]
    rw [Function.update_of_ne (by omega)]
    exact h.rest j hj

/-! ## A round -/

/-- When the slots in use are all occupied, there are as many connections as slots. -/
lemma Uses.card_le (h : Uses garbage n s) : s.conns.card ≤ n := by
  have hle := h.holds.card_le
  have hsub := Finset.card_filter_le (Finset.Ico 0 n) fun i => 0 ≤ s.client i
  rw [Nat.card_Ico] at hsub
  omega

/-- The first free slot is one of those in use. -/
lemma Uses.firstFree_lt (h : Uses garbage n s) (hle : n ≤ fdSetsize)
    (hroom : n < fdSetsize → s.conns.card < n) (hi : firstFree 0 fdSetsize s.client = some i) :
    i < n := by
  rcases hle.lt_or_eq with hlt | rfl
  · obtain ⟨j, -, hj, hneg⟩ := h.holds.exists_free (Nat.zero_add n).le (hroom hlt)
    obtain ⟨k, hk, hk'⟩ := @exists_firstFree_le 0 fdSetsize s.client j (Nat.zero_le _)
      (by omega) hneg
    obtain rfl := Option.some.inj (hi.symm.trans hk')
    omega
  · exact (firstFree_eq_some hi).2.1

/-- A round in which there is a slot for the connection that is accepted. -/
lemma Uses.round (h : Uses garbage n s) (hle : n ≤ fdSetsize) (hr : Reply.Ok listenfd s.conns r)
    (hroom : Accepts listenfd p r → n < fdSetsize → s.conns.card < n) :
    (∀ t, round listenfd s p r = .next t → Uses garbage n t) ∧
      ∀ t, round listenfd s p r = .tooManyClients t → fdSetsize ≤ s.conns.card := by
  rw [SelectServer.round]
  split
  · next hin =>
    dsimp only
    split
    · refine ⟨fun t ht => ?_, fun t ht => ?_⟩
      · obtain rfl := Outcome.next.inj ht
        exact ⟨h.holds, h.maxidx, h.above, h.rest, h.allset⟩
      · cases ht
    · refine ⟨fun t ht => ?_, fun t ht => ?_⟩ <;> cases ht
    · next c haccept =>
      have hroom := hroom ⟨hin, c, haccept⟩
      obtain ⟨hc, -, hnew⟩ := hr.accept c haccept
      split
      · next hnone =>
        refine ⟨fun t ht => (nomatch ht), fun _ _ => ?_⟩
        -- all slots are occupied, so that none of them was left out
        have hocc : ∀ i, 0 ≤ i → i < 0 + n → 0 ≤ s.client i :=
          fun i hlo hhi => firstFree_eq_none hnone hlo (by omega)
        have hcard := h.holds.le_card (Nat.zero_add n).le hocc
        rcases hle.lt_or_eq with hlt | rfl
        · exact absurd (hroom hlt) (not_lt.2 hcard)
        · exact hcard
      · next i hsome =>
        have hput : Uses garbage n (s.seat listenfd i c) :=
          h.seat (h.firstFree_lt hle hroom hsome) (firstFree_eq_some hsome).2.2 hc hnew
        refine ⟨fun t ht => ?_, fun t ht => ?_⟩
        · split at ht
          · cases ht
          · split at ht
            · obtain rfl := Outcome.next.inj ht
              exact hput
            · exact hput.readClients ht
        · split at ht
          · cases ht
          · split at ht
            · cases ht
            · exact absurd ht (readClients_ne_tooManyClients _ _ _ _ _)
  · refine ⟨fun t ht => h.readClients ht, fun t ht => ?_⟩
    exact absurd ht (readClients_ne_tooManyClients _ _ _ _ _)

lemma InitialisedNext.uses (hst : InitialisedNext listenfd garbage s t) (h : Uses garbage n s)
    (hle : n ≤ fdSetsize) (hnn : n < fdSetsize → 0 ≤ initClient garbage n) : Uses garbage n t := by
  obtain ⟨p, r, hr, hcond, hround⟩ := hst
  exact (h.round hle hr fun hacc hlt => hcond hacc n hlt (hnn hlt)).1 t hround

/-- A connection is accepted, and nothing else happens. -/
lemma round_accept {c : ℤ} (hfree : firstFree 0 fdSetsize s.client = some i) (hc : c < fdSetsize) :
    round listenfd s ⟨1, {listenfd}⟩ ⟨.fd c, fun _ => .closed⟩
      = .next (s.seat listenfd i c) := by
  rw [SelectServer.round, if_pos (Finset.mem_singleton_self _)]
  dsimp only
  rw [hfree]
  dsimp only
  rw [if_neg (not_le.2 hc), if_pos (by decide)]
  rfl

lemma round_refuse (c : ℤ) (hfull : firstFree 0 fdSetsize s.client = none) :
    round listenfd s ⟨1, {listenfd}⟩ ⟨.fd c, fun _ => .closed⟩ = .tooManyClients
      { s with calls := s.calls ++ [.accept listenfd], conns := insert c s.conns } := by
  rw [SelectServer.round, if_pos (Finset.mem_singleton_self _)]
  dsimp only
  rw [hfull]

/-- The kernel may give any descriptor that is not open. -/
lemma replyOk_accept {conns : Finset ℤ} {c : ℤ} (hc : 0 ≤ c) (hl : c ≠ listenfd)
    (hnew : c ∉ conns) : Reply.Ok listenfd conns ⟨.fd c, fun _ => .closed⟩ := by
  refine ⟨fun c' hc' => ?_, fun fd bytes hread => ?_⟩
  · obtain rfl := EpollServer.AcceptResult.fd.inj hc'
    exact ⟨hc, hl, hnew⟩
  · cases hread

/-- Below any number there is a descriptor that is not open, if there are less than so many that
are. -/
lemma exists_fresh {conns : Finset ℤ} {m : ℕ} (hcard : conns.card + 1 < m) (listenfd : ℤ) :
    ∃ c : ℤ, 0 ≤ c ∧ c < m ∧ c ≠ listenfd ∧ c ∉ conns := by
  by_contra hnot
  have hsub : Finset.Ico (0 : ℤ) m ⊆ insert listenfd conns := by
    intro c hc
    rw [Finset.mem_Ico] at hc
    by_contra hmem
    rw [Finset.mem_insert, not_or] at hmem
    exact hnot ⟨c, hc.1, hc.2, hmem.1, hmem.2⟩
  have hle := Finset.card_le_card hsub
  have hins := Finset.card_insert_le listenfd conns
  rw [Int.card_Ico, Int.sub_zero, Int.toNat_natCast] at hle
  omega

/-- With fewer connections than slots in use, the next one is put into one of these. -/
lemma Uses.exists_accept (h : Uses garbage n s) (hle : n ≤ fdSetsize) (hroom : s.conns.card < n)
    {c : ℤ} (hc : c < fdSetsize) :
    ∃ i, SelectServer.round listenfd s ⟨1, {listenfd}⟩ ⟨.fd c, fun _ => .closed⟩
      = .next (s.seat listenfd i c) := by
  obtain ⟨j, -, hj, hfree⟩ := h.holds.exists_free (Nat.zero_add n).le hroom
  obtain ⟨i, -, hi⟩ :=
    @exists_firstFree_le 0 fdSetsize s.client j (Nat.zero_le _) (by omega) hfree
  exact ⟨i, round_accept hi hc⟩

/-- One more descriptor in a row. -/
lemma insert_Ico_succ (k : ℕ) :
    insert (4 + k : ℤ) (Finset.Ico 4 (4 + k : ℤ)) = Finset.Ico 4 (4 + (k + 1 : ℕ) : ℤ) := by
  ext c
  rw [Finset.mem_insert, Finset.mem_Ico, Finset.mem_Ico]
  push_cast
  omega

/-- A slot in use that is not free and has no connection of its own. -/
lemma TableOk.false_of_taken (h : TableOk t) (hn : n ≤ t.maxidx) (hnn : 0 ≤ t.client n)
    (hother : ∀ c ∈ t.conns, ∃ i : ℕ, i ≠ n ∧ i ≤ t.maxidx ∧ t.client i = c) : False := by
  rcases h.slot n hn with hneg | ⟨hmem, -⟩
  · exact absurd hnn (not_le.2 hneg)
  · obtain ⟨i, hin, hi, heq⟩ := hother _ hmem
    refine hin (h.inj i n hi hn ?_ heq)
    rw [heq]
    exact hmem

/-- A connection that is put behind a slot that was not negative. -/
lemma Uses.not_table_seat (h : Uses garbage n s) (hnn : 0 ≤ initClient garbage n) {j : ℕ}
    (hj : n < j) (c : ℤ) : ¬ TableOk (s.seat listenfd j c) := by
  intro htable
  have hmax := h.maxidx
  have hmaxidx : (s.seat listenfd j c).maxidx = j := by
    simp only [State.seat, State.put]
    rw [if_pos (by omega)]
  have hclient : ∀ i, i ≠ j → (s.seat listenfd j c).client i = s.client i :=
    fun i hi => Function.update_of_ne hi _ _
  refine htable.false_of_taken (n := n) (by omega) ?_ fun c' hc' => ?_
  · rw [hclient n hj.ne, h.rest n le_rfl]
    exact hnn
  · -- the connections are in the slots in front of it, and in the new one
    rcases Finset.mem_insert.1 hc' with rfl | hc'
    · exact ⟨j, hj.ne', hmaxidx.ge, Function.update_self _ _ _⟩
    · obtain ⟨i, -, hi, rfl⟩ := h.holds.slot c' hc'
      exact ⟨i, hi.ne, by omega, hclient i (by omega)⟩

/-- With as many connections as slots in front of the first one that was not negative, the next
connection is refused too early, or it is put behind this slot. -/
lemma Uses.exists_round_not_ok (h : Uses garbage n s) (hlt : n < fdSetsize)
    (hnn : 0 ≤ initClient garbage n) (hcard : n ≤ s.conns.card) :
    ∃ p r, Reply.Ok listenfd s.conns r ∧ ¬ RoundOk listenfd s p r := by
  have hle := h.card_le
  cases hfree : firstFree 0 fdSetsize s.client with
  | none =>
    obtain ⟨c, hc, -, hl, hnew⟩ := @exists_fresh s.conns (s.conns.card + 2) (by omega) listenfd
    refine ⟨⟨1, {listenfd}⟩, _, replyOk_accept hc hl hnew, fun hok => ?_⟩
    have hfull := hok.2 _ (round_refuse c hfree)
    omega
  | some j =>
    obtain ⟨-, hj, hneg⟩ := firstFree_eq_some hfree
    have hnj : n < j := by
      by_contra hjn
      rcases (not_lt.1 hjn).lt_or_eq with hjn | rfl
      · exact absurd (h.holds.occupied (by omega) (Nat.zero_le _) hjn) (not_le.2 hneg)
      · rw [h.rest j le_rfl] at hneg
        exact absurd hnn (not_le.2 hneg)
    obtain ⟨c, hc, hrange, hl, hnew⟩ := @exists_fresh s.conns fdSetsize (by omega) listenfd
    refine ⟨⟨1, {listenfd}⟩, _, replyOk_accept hc hl hnew, fun hok => ?_⟩
    exact h.not_table_seat hnn hnj c (hok.1 _ (round_accept hfree hrange))

/-! ## All rounds -/

/-- The slots that are used in a run. -/
lemma exists_uses
    (h : Reachable (· = State.start listenfd garbage) (InitialisedNext listenfd garbage) s) :
    ∃ n ≤ fdSetsize, (n < fdSetsize → 0 ≤ initClient garbage n) ∧
      (∀ i < n, initClient garbage i < 0) ∧ Uses garbage n s := by
  obtain ⟨n, hle, hneg, hnn⟩ := exists_usable garbage
  refine ⟨n, hle, hnn, hneg, Reachable.invariant ?_ ?_ h⟩
  · rintro s rfl
    exact uses_start hneg
  · intro s t _ hs hst
    exact hst.uses hs hle hnn

/-- **The table at every call of `select`.**  In a run in which connections are accepted only
while there are fewer of them than slots in front of any slot that was left non-negative, the
table is as it should be at every call of `select`, and no connection is refused before
`FD_SETSIZE` are open.  When there are not fewer, there is a round after which this is not so. -/
theorem table_iff_initialised
    (h : Reachable (· = State.start listenfd garbage) (InitialisedNext listenfd garbage) s) :
    TableOk s ∧
    (∀ p r, Reply.Ok listenfd s.conns r → (Accepts listenfd p r → Initialised garbage s) →
      RoundOk listenfd s p r) ∧
    (¬ Initialised garbage s → ∃ p r, Reply.Ok listenfd s.conns r ∧ ¬ RoundOk listenfd s p r) := by
  obtain ⟨n, hle, hnn, hneg, huses⟩ := exists_uses h
  refine ⟨huses.table, fun p r hr hcond => ?_, fun hnot => ?_⟩
  · obtain ⟨hnext, hrefuse⟩ := huses.round hle hr fun hacc hlt => hcond hacc n hlt (hnn hlt)
    exact ⟨fun t ht => (hnext t ht).table, hrefuse⟩
  · rw [Initialised] at hnot
    push Not at hnot
    obtain ⟨i, hi, hinit, hcard⟩ := hnot
    have hni : n ≤ i := by
      by_contra hlt
      exact absurd (hneg i (not_le.1 hlt)) (not_lt.2 hinit)
    have hlt : n < fdSetsize := by omega
    exact huses.exists_round_not_ok hlt (hnn hlt) (by omega)

/-! ## A server with zeros in its memory -/

/-- In zeroed memory, the first 256 slots are usable. -/
lemma initialised_zero (hcard : s.conns.card < 256) : Initialised (fun _ => 0) s := by
  intro i _ hi
  rw [initClient] at hi
  split at hi
  · exact absurd hi (by decide)
  · next hlt =>
    rw [fdSetsize] at hlt
    omega

/-- A server that can accept one client after the other does. -/
lemma exists_run_accepting {next : State → State → Prop} {init : State} (h0 : init.conns = ∅)
    {n : ℕ} (hstep : ∀ k < n, ∀ s, Reachable (· = init) next s →
      s.conns = Finset.Ico 4 (4 + k : ℤ) → ∃ t, next s t ∧ t.conns = insert (4 + k : ℤ) s.conns)
    {k : ℕ} (hk : k ≤ n) :
    ∃ s, Reachable (· = init) next s ∧ s.conns = Finset.Ico 4 (4 + k : ℤ) := by
  induction k with
  | zero => exact ⟨init, .of_init rfl, by simp [h0]⟩
  | succ k ih =>
    obtain ⟨s, hs, hconns⟩ := ih (by omega)
    obtain ⟨t, hst, ht⟩ := hstep k (by omega) s hs hconns
    exact ⟨t, hs.tail hst, by rw [ht, hconns, insert_Ico_succ]⟩

/-- The first 256 clients are accepted. -/
lemma exists_run_zero {k : ℕ} (hk : k ≤ 256) :
    ∃ s, Reachable (· = State.start 3 fun _ => 0) (InitialisedNext 3 fun _ => 0) s ∧
      s.conns = Finset.Ico 4 (4 + k : ℤ) := by
  refine exists_run_accepting rfl (fun k hk s hs hconns => ?_) hk
  have hcard : s.conns.card = k := by
    rw [hconns, Int.card_Ico]
    omega
  obtain ⟨n, hle, hnn, hneg, huses⟩ := exists_uses hs
  have hinit := initialised_zero (show s.conns.card < 256 by omega)
  have hnew : (4 + k : ℤ) ∉ s.conns := by
    rw [hconns]
    simp
  -- there is a free slot in front of the others
  have hroom : s.conns.card < n := by
    rcases hle.lt_or_eq with hlt | rfl
    · exact hinit n hlt (hnn hlt)
    · rw [fdSetsize]
      omega
  obtain ⟨i, hround⟩ := @Uses.exists_accept 3 _ _ _ huses hle hroom (4 + k)
    (by rw [fdSetsize]; omega)
  have hreply := @replyOk_accept 3 _ _ (by omega) (by omega) hnew
  exact ⟨_, ⟨_, _, hreply, fun _ => hinit, hround⟩, rfl⟩

/-- In zeroed memory the 257th client is refused. -/
theorem refusedClient :
    ∃ s p r t, Reachable (· = State.start 3 fun _ => 0) (Next 3) s ∧ s.conns.card = 256 ∧
      Reply.Ok 3 s.conns r ∧ round 3 s p r = .tooManyClients t := by
  obtain ⟨s, hs, hconns⟩ := exists_run_zero le_rfl
  have hcard : s.conns.card = 256 := by
    rw [hconns, Int.card_Ico]
    rfl
  obtain ⟨n, hle, hnn, hneg, huses⟩ := exists_uses hs
  have hn : n = 256 := by
    have hge := huses.card_le
    by_contra hne
    have hlt := hneg 256 (by omega)
    exact absurd hlt (by decide)
  subst hn
  have hfull : firstFree 0 fdSetsize s.client = none := by
    cases hfree : firstFree 0 fdSetsize s.client with
    | none => rfl
    | some i =>
      obtain ⟨-, hi, hneg⟩ := firstFree_eq_some hfree
      by_cases hlt : i < 256
      · exact absurd (huses.holds.occupied (by omega) (Nat.zero_le _) hlt) (not_le.2 hneg)
      · rw [huses.rest i (by omega), initClient, if_neg (by rw [fdSetsize]; omega)] at hneg
        exact absurd hneg (by decide)
  refine ⟨s, ⟨1, {3}⟩, ⟨.fd 260, fun _ => .closed⟩, _, ?_, hcard, ?_, round_refuse 260 hfull⟩
  · refine hs.mono ?_
    rintro s t ⟨p, r, hr, -, hround⟩
    exact ⟨p, r, hr, hround⟩
  · refine replyOk_accept (by decide) (by decide) ?_
    rw [hconns]
    decide

/-- With 256 clients in zeroed memory the table is as it should be, and one more is one too
many. -/
theorem table_full_zero :
    ∃ s, s.conns.card = 256 ∧ TableOk s ∧ ∃ p r, Reply.Ok 3 s.conns r ∧ ¬ RoundOk 3 s p r := by
  obtain ⟨s, hs, hconns⟩ := exists_run_zero le_rfl
  have hcard : s.conns.card = 256 := by
    rw [hconns, Int.card_Ico]
    rfl
  obtain ⟨htable, -, hnot⟩ := table_iff_initialised hs
  refine ⟨s, hcard, htable, hnot fun hinit => ?_⟩
  have hlt := hinit 256 (by decide) (by decide)
  omega

end CppExample.Echo.SelectServer
