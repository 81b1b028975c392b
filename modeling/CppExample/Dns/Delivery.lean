/-
# Every query is delivered at most once, on its own socket

The two threads never work on the same query.  Until `EPOLL_CTL_ADD` the socket and the
`ep_arg` of a query belong to the main thread; with it they pass to the worker, which finds
them in the epoll set.  What a thread does keeps the sockets and `ep_arg`s of the queries of the
other one (`Keeps`), even when it reuses numbers and addresses.

From this the invariant of the process follows, and from the invariant the properties of the
log: `delivery`.
-/
import CppExample.Dns.AsyncClient
import CppExample.Dns.Question
import CppExample.Lib.Heap

namespace CppExample.Dns.Async
open Lib

variable {Cb : Type}

/-! ## What the log says -/

section Log

variable {log : List (Event Cb)} {e : Event Cb} {q : ℕ}

/-- The callback of the query has run. -/
def Called (q : ℕ) (log : List (Event Cb)) : Prop :=
  ∃ cb count domains, Event.called q cb count domains ∈ log

/-- The query of a callback. -/
def Event.calledQuery : Event Cb → Option ℕ
  | .called query _ _ _ => some query
  | _ => none

/-- The query that was delivered last. -/
def lastCalled (log : List (Event Cb)) : Option ℕ := (log.filterMap Event.calledQuery).getLast?

/-- What may come after the log: an `ep_arg` is allocated once, and accessed and freed only after
that and before it was freed; a callback is the one of the query, runs once, and gets what was
parsed from a receive on the socket of the query; and a descriptor is taken out of the epoll set
or closed only if it is that of the query that was delivered last. -/
def Allowed (log : List (Event Cb)) : Event Cb → Prop
  | .allocated q => Event.allocated q ∉ log
  | .accessed q => Event.allocated q ∈ log ∧ Event.freed q ∉ log
  | .freed q => Event.allocated q ∈ log ∧ Event.freed q ∉ log
  | .called q cb count domains => Event.committed q cb ∈ log ∧ ¬ Called q log ∧
      ∃ bytes, Event.received (some q) bytes ∈ log ∧ Parses bytes count domains
  | .deregistered _ socket => ∃ q, socket = some q ∧ lastCalled log = some q
  | .closed _ socket => ∃ q, socket = some q ∧ lastCalled log = some q
  | _ => True

lemma called_append : Called q (log ++ [e]) ↔ Called q log ∨ e.calledQuery = some q := by
  simp only [Called, List.mem_append, List.mem_singleton]
  constructor
  · rintro ⟨cb, count, domains, h | rfl⟩
    · exact Or.inl ⟨cb, count, domains, h⟩
    · exact Or.inr rfl
  · rintro (⟨cb, count, domains, h⟩ | h)
    · exact ⟨cb, count, domains, Or.inl h⟩
    · cases e with
      | called query cb count domains =>
        obtain rfl := Option.some.inj h
        exact ⟨cb, count, domains, Or.inr rfl⟩
      | _ => cases h

lemma lastCalled_append (he : e.calledQuery = none) : lastCalled (log ++ [e]) = lastCalled log := by
  simp [lastCalled, List.filterMap_append, he]

lemma lastCalled_append_called {cb : Cb} {count : ℤ} {domains : Option (List DnsItem)} :
    lastCalled (log ++ [.called q cb count domains]) = some q := by
  simp [lastCalled, List.filterMap_append, Event.calledQuery]

lemma called_of_lastCalled (h : lastCalled log = some q) : Called q log := by
  obtain ⟨e, he, hq⟩ := List.mem_filterMap.1 (List.mem_of_getLast? h)
  cases e with
  | called query cb count domains =>
    obtain rfl := Option.some.inj hq
    exact ⟨cb, count, domains, he⟩
  | _ => cases hq

/-- Only what was allocated is freed. -/
lemma allocated_of_freed (h : Lawful Allowed log) (hq : Event.freed q ∈ log) :
    Event.allocated q ∈ log := by
  obtain ⟨l, l', rfl⟩ := List.append_of_mem hq
  exact List.mem_append_left _ (h l _ l' rfl).1

end Log

/-! ## Sockets and blocks -/

section Own

variable {fds fds' : ℕ → Option ℕ} {heap heap' : ℕ → Option (Block Cb)} {queries : ℕ}
  {log : List (Event Cb)} {e : Event Cb} {q fd p : ℕ}

/-- Every query has at most one open socket and at most one block in memory, which was
allocated and not freed. -/
structure Own (fds : ℕ → Option ℕ) (heap : ℕ → Option (Block Cb)) (queries : ℕ)
    (log : List (Event Cb)) : Prop where
  lawful : Lawful Allowed log
  socket_lt : ∀ fd q, fds fd = some q → q < queries
  socket_inj : KeyInj id fds
  allocated_lt : ∀ q, Event.allocated q ∈ log → q < queries
  registered_lt : ∀ q, Event.registered q ∈ log → q < queries
  live : ∀ p b, heap p = some b → Event.allocated b.query ∈ log ∧ Event.freed b.query ∉ log
  live_inj : KeyInj Block.query heap

/-- An event that is not about the lifetime of a block. -/
def Event.Neutral (e : Event Cb) : Prop :=
  ∀ q, e ≠ .allocated q ∧ e ≠ .registered q ∧ e ≠ .freed q

lemma mem_append_of_ne {x : Event Cb} (hne : e ≠ x) : x ∈ log ++ [e] ↔ x ∈ log := by
  rw [List.mem_append, List.mem_singleton]
  exact or_iff_left fun h => hne h.symm

lemma Own.event (h : Own fds heap queries log) (he : Allowed log e) (hn : e.Neutral) :
    Own fds heap queries (log ++ [e]) := by
  refine ⟨h.lawful.snoc he, h.socket_lt, h.socket_inj, fun q hq => ?_, fun q hq => ?_,
    fun p b hp => ?_, h.live_inj⟩
  · exact h.allocated_lt q ((mem_append_of_ne (hn q).1).1 hq)
  · exact h.registered_lt q ((mem_append_of_ne (hn q).2.1).1 hq)
  · obtain ⟨hlive, hfreed⟩ := h.live p b hp
    refine ⟨List.mem_append_left _ hlive, fun hmem => hfreed ?_⟩
    exact (mem_append_of_ne (hn b.query).2.2).1 hmem

lemma Own.socket (h : Own fds heap queries log) (fd : ℕ) :
    Own (Function.update fds fd (some queries)) heap (queries + 1) log := by
  refine ⟨h.lawful, fun fd' q hq => ?_, h.socket_inj.insert fun fd' q hq => ?_,
    fun q hq => Nat.lt_succ_of_lt (h.allocated_lt q hq),
    fun q hq => Nat.lt_succ_of_lt (h.registered_lt q hq), h.live, h.live_inj⟩
  · rcases update_some_eq_some.1 hq with ⟨-, rfl⟩ | ⟨-, hq⟩
    · exact Nat.lt_succ_self _
    · exact Nat.lt_succ_of_lt (h.socket_lt fd' q hq)
  · exact (h.socket_lt fd' q hq).ne

lemma Own.calloc (h : Own fds heap queries log) (hq : q < queries)
    (hnot : Event.allocated q ∉ log) (arg : EpArg Cb) :
    Own fds (Function.update heap p (some ⟨q, arg⟩)) queries (log ++ [.allocated q]) := by
  refine ⟨h.lawful.snoc hnot, h.socket_lt, h.socket_inj, fun q' hq' => ?_, fun q' hq' => ?_,
    fun p' b hp' => ?_, h.live_inj.insert fun p' b hp' hkey => ?_⟩
  · rcases List.mem_append.1 hq' with hq' | hq'
    · exact h.allocated_lt q' hq'
    · cases List.mem_singleton.1 hq'
      exact hq
  · exact h.registered_lt q' ((mem_append_of_ne (by simp)).1 hq')
  · have hfreed : Event.freed b.query ∈ log ++ [.allocated q] ↔ Event.freed b.query ∈ log :=
      mem_append_of_ne (by simp)
    rw [hfreed]
    rcases update_some_eq_some.1 hp' with ⟨-, rfl⟩ | ⟨-, hp'⟩
    · exact ⟨by simp, fun hfreed => hnot (allocated_of_freed h.lawful hfreed)⟩
    · exact ⟨List.mem_append_left _ (h.live p' b hp').1, (h.live p' b hp').2⟩
  · rw [← show b.query = q from hkey] at hnot
    exact hnot (h.live p' b hp').1

/-- Writing to a block. -/
lemma Own.write (h : Own fds heap queries log) {b : Block Cb} (hp : heap p = some b)
    (arg : EpArg Cb) : Own fds (Function.update heap p (some ⟨b.query, arg⟩)) queries log := by
  refine ⟨h.lawful, h.socket_lt, h.socket_inj, h.allocated_lt, h.registered_lt,
    fun p' b' hp' => ?_, h.live_inj.replace hp rfl⟩
  rcases update_some_eq_some.1 hp' with ⟨-, rfl⟩ | ⟨-, hp'⟩
  · exact h.live p b hp
  · exact h.live p' b' hp'

lemma Own.register (h : Own fds heap queries log) (hq : q < queries) :
    Own fds heap queries (log ++ [.registered q]) := by
  refine ⟨h.lawful.snoc trivial, h.socket_lt, h.socket_inj, fun q' hq' => ?_, fun q' hq' => ?_,
    fun p b hp => ?_, h.live_inj⟩
  · exact h.allocated_lt q' ((mem_append_of_ne (by simp)).1 hq')
  · rcases List.mem_append.1 hq' with hq' | hq'
    · exact h.registered_lt q' hq'
    · cases List.mem_singleton.1 hq'
      exact hq
  · rw [mem_append_of_ne (by simp), mem_append_of_ne (by simp)]
    exact h.live p b hp

lemma Own.close (h : Own fds heap queries log) (fd : ℕ) :
    Own (Function.update fds fd none) heap queries log := by
  refine ⟨h.lawful, fun fd' q hq => ?_, h.socket_inj.erase fd, h.allocated_lt, h.registered_lt,
    h.live, h.live_inj⟩
  exact h.socket_lt fd' q (update_none_eq_some.1 hq).2

lemma Own.free (h : Own fds heap queries log) {b : Block Cb} (hp : heap p = some b) :
    Own fds (Function.update heap p none) queries (log ++ [.freed b.query]) := by
  refine ⟨h.lawful.snoc (h.live p b hp), h.socket_lt, h.socket_inj, fun q' hq' => ?_,
    fun q' hq' => ?_, fun p' b' hp' => ?_, h.live_inj.erase p⟩
  · exact h.allocated_lt q' ((mem_append_of_ne (by simp)).1 hq')
  · exact h.registered_lt q' ((mem_append_of_ne (by simp)).1 hq')
  · obtain ⟨hne, hp'⟩ := update_none_eq_some.1 hp'
    obtain ⟨hlive, hfreed⟩ := h.live p' b' hp'
    refine ⟨List.mem_append_left _ hlive, fun hmem => ?_⟩
    rcases List.mem_append.1 hmem with hmem | hmem
    · exact hfreed hmem
    · have hq : b'.query = b.query := Event.freed.inj (List.mem_singleton.1 hmem)
      exact hne (h.live_inj p' p b' b hp' hp hq)

end Own

/-! ## The epoll set -/

section Epoll

variable {fds fds' : ℕ → Option ℕ} {heap heap' : ℕ → Option (Block Cb)} {queries : ℕ}
  {interest : List Registration} {log : List (Event Cb)} {e : Event Cb} {delivering : Option ℕ}
  {q fd p : ℕ}

/-- The socket and the block of an entry are those of its query. -/
structure Entry (fds : ℕ → Option ℕ) (heap : ℕ → Option (Block Cb)) (log : List (Event Cb))
    (reg : Registration) : Prop where
  registered : Event.registered reg.query ∈ log
  socket : fds reg.fd = some reg.query
  block : ∃ cb, heap reg.data = some ⟨reg.query, ⟨reg.fd, some cb⟩⟩ ∧
    Event.committed reg.query cb ∈ log

/-- The entries of the epoll set are queries that were registered; all of those that were not
delivered are there, and of the others at most the one that the worker is `delivering`. -/
structure Epoll (fds : ℕ → Option ℕ) (heap : ℕ → Option (Block Cb))
    (interest : List Registration) (log : List (Event Cb)) (delivering : Option ℕ) : Prop where
  entry : ∀ reg ∈ interest, Entry fds heap log reg
  nodup : (interest.map Registration.query).Nodup
  pending : ∀ q, Event.registered q ∈ log → ¬ Called q log → ∃ reg ∈ interest, reg.query = q
  registered : ∀ q, Called q log → Event.registered q ∈ log
  called : ∀ reg ∈ interest, Called reg.query log → delivering = some reg.data

/-- The sockets and blocks of these queries are left alone. -/
structure Keeps (P : ℕ → Prop) (fds : ℕ → Option ℕ) (heap : ℕ → Option (Block Cb))
    (fds' : ℕ → Option ℕ) (heap' : ℕ → Option (Block Cb)) : Prop where
  socket : ∀ fd q, P q → fds fd = some q → fds' fd = some q
  block : ∀ p b, P b.query → heap p = some b → heap' p = some b

lemma Keeps.refl {P : ℕ → Prop} : Keeps P fds heap fds heap :=
  ⟨fun _ _ _ h => h, fun _ _ _ h => h⟩

lemma Entry.event {reg : Registration} (h : Entry fds heap log reg) :
    Entry fds heap (log ++ [e]) reg := by
  obtain ⟨cb, hb, hcb⟩ := h.block
  exact ⟨List.mem_append_left _ h.registered, h.socket, cb, hb, List.mem_append_left _ hcb⟩

/-- Two entries of one query are the same. -/
lemma Epoll.entry_eq (h : Epoll fds heap interest log delivering) {reg reg' : Registration}
    (hreg : reg ∈ interest) (hreg' : reg' ∈ interest) (hq : reg.query = reg'.query) :
    reg = reg' := List.inj_on_of_nodup_map h.nodup hreg hreg' hq

/-- And so are two entries with one pointer. -/
lemma Epoll.data_inj (h : Epoll fds heap interest log delivering) {reg reg' : Registration}
    (hreg : reg ∈ interest) (hreg' : reg' ∈ interest) (hdata : reg.data = reg'.data) :
    reg = reg' := by
  obtain ⟨cb, hb, -⟩ := (h.entry reg hreg).block
  obtain ⟨cb', hb', -⟩ := (h.entry reg' hreg').block
  rw [hdata, hb'] at hb
  exact h.entry_eq hreg hreg' (congrArg Block.query (Option.some.inj hb)).symm

lemma Epoll.keeps_entries (h : Epoll fds heap interest log delivering)
    (hk : Keeps (fun q => ∃ reg ∈ interest, reg.query = q) fds heap fds' heap') :
    Epoll fds' heap' interest log delivering := by
  refine ⟨fun reg hreg => ?_, h.nodup, h.pending, h.registered, h.called⟩
  obtain ⟨hr, hsocket, cb, hb, hcb⟩ := h.entry reg hreg
  exact ⟨hr, hk.socket _ _ ⟨reg, hreg, rfl⟩ hsocket, cb, hk.block _ _ ⟨reg, hreg, rfl⟩ hb, hcb⟩

lemma Epoll.keeps (h : Epoll fds heap interest log delivering)
    (hk : Keeps (fun q => Event.registered q ∈ log) fds heap fds' heap') :
    Epoll fds' heap' interest log delivering := by
  have hr : ∀ q, (∃ reg ∈ interest, reg.query = q) → Event.registered q ∈ log := by
    rintro q ⟨reg, hreg, rfl⟩
    exact (h.entry reg hreg).registered
  exact h.keeps_entries ⟨fun fd q hq => hk.socket fd q (hr q hq),
    fun p b hb => hk.block p b (hr _ hb)⟩

/-- An event that neither registers nor delivers a query. -/
lemma Epoll.event (h : Epoll fds heap interest log delivering) (hr : ∀ q, e ≠ .registered q)
    (hc : e.calledQuery = none) : Epoll fds heap interest (log ++ [e]) delivering := by
  have hcalled : ∀ q, Called q (log ++ [e]) ↔ Called q log := by
    intro q
    rw [called_append, hc]
    simp
  refine ⟨fun reg hreg => (h.entry reg hreg).event, h.nodup, fun q hq hnot => ?_,
    fun q hq => ?_, fun reg hreg hq => ?_⟩
  · exact h.pending q ((mem_append_of_ne (hr q)).1 hq) (fun hq => hnot ((hcalled q).2 hq))
  · exact List.mem_append_left _ (h.registered q ((hcalled q).1 hq))
  · exact h.called reg hreg ((hcalled _).1 hq)

lemma Epoll.add (h : Epoll fds heap interest log delivering) {cb : Cb}
    (hfd : fds fd = some q) (hp : heap p = some ⟨q, ⟨fd, some cb⟩⟩)
    (hcb : Event.committed q cb ∈ log) (hnot : Event.registered q ∉ log) :
    Epoll fds heap (interest ++ [⟨fd, q, p⟩]) (log ++ [.registered q]) delivering := by
  have hcalled : ∀ q', Called q' (log ++ [.registered q]) ↔ Called q' log := by
    intro q'
    rw [called_append]
    exact or_iff_left (by simp [Event.calledQuery])
  refine ⟨fun reg hreg => ?_, ?_, fun q' hq' hnot' => ?_, fun q' hq' => ?_, fun reg hreg hq' => ?_⟩
  · rcases List.mem_append.1 hreg with hreg | hreg
    · exact (h.entry reg hreg).event
    · cases List.mem_singleton.1 hreg
      exact ⟨by simp, hfd, cb, hp, List.mem_append_left _ hcb⟩
  · rw [List.map_append, List.map_singleton, List.nodup_append]
    refine ⟨h.nodup, List.nodup_singleton _, fun q₁ h₁ q₂ h₂ => ?_⟩
    rintro rfl
    obtain ⟨reg, hreg, hq⟩ := List.mem_map.1 h₁
    have hq' : q₁ = q := List.mem_singleton.1 h₂
    exact hnot (hq' ▸ hq ▸ (h.entry reg hreg).registered)
  · rcases List.mem_append.1 hq' with hq' | hq'
    · obtain ⟨reg, hreg, hq⟩ := h.pending q' hq' (fun hc => hnot' ((hcalled q').2 hc))
      exact ⟨reg, List.mem_append_left _ hreg, hq⟩
    · cases List.mem_singleton.1 hq'
      exact ⟨⟨fd, q, p⟩, by simp, rfl⟩
  · exact List.mem_append_left _ (h.registered q' ((hcalled q').1 hq'))
  · rw [hcalled] at hq'
    rcases List.mem_append.1 hreg with hreg | hreg
    · exact h.called reg hreg hq'
    · cases List.mem_singleton.1 hreg
      exact absurd (h.registered q hq') hnot

/-- The callback of an entry. -/
lemma Epoll.call (h : Epoll fds heap interest log none) {reg : Registration} (hreg : reg ∈ interest)
    (cb : Cb) (count : ℤ) (domains : Option (List DnsItem)) :
    Epoll fds heap interest (log ++ [.called reg.query cb count domains]) (some reg.data) := by
  refine ⟨fun reg' hreg' => (h.entry reg' hreg').event, h.nodup, fun q hq hnot => ?_,
    fun q hq => ?_, fun reg' hreg' hq => ?_⟩
  · rw [called_append] at hnot
    exact h.pending q ((mem_append_of_ne (by simp)).1 hq) (fun hc => hnot (Or.inl hc))
  · rcases called_append.1 hq with hq | hq
    · exact List.mem_append_left _ (h.registered q hq)
    · obtain rfl : reg.query = q := Option.some.inj hq
      exact List.mem_append_left _ (h.entry reg hreg).registered
  · rcases called_append.1 hq with hq | hq
    · cases h.called reg' hreg' hq
    · rw [h.entry_eq hreg hreg' (Option.some.inj hq)]

/-- Some entries of queries that were delivered are taken out, the one that is being delivered
among them. -/
lemma Epoll.filter (h : Epoll fds heap interest log delivering) {keep : Registration → Bool}
    (hkeep : ∀ reg ∈ interest, keep reg = false → Called reg.query log)
    (hdrop : ∀ reg ∈ interest, delivering = some reg.data → keep reg = false) :
    Epoll fds heap (interest.filter keep) log none := by
  refine ⟨fun reg hreg => h.entry reg (List.mem_of_mem_filter hreg),
    h.nodup.sublist (List.filter_sublist.map _), fun q hq hnot => ?_, h.registered,
    fun reg hreg hq => ?_⟩
  · obtain ⟨reg, hreg, rfl⟩ := h.pending q hq hnot
    refine ⟨reg, List.mem_filter.2 ⟨hreg, ?_⟩, rfl⟩
    by_contra hk
    exact hnot (hkeep reg hreg (Bool.eq_false_iff.2 hk))
  · obtain ⟨hreg, hk⟩ := List.mem_filter.1 hreg
    rw [hdrop reg hreg (h.called reg hreg hq)] at hk
    cases hk

end Epoll

/-! ## The threads -/

section Threads

variable {fds fds' : ℕ → Option ℕ} {heap heap' : ℕ → Option (Block Cb)}
  {interest interest' : List Registration} {log : List (Event Cb)} {e : Event Cb}
  {m : Main Cb} {w : Worker} {q fd p : ℕ} {todo : List ℕ}

/-- The query of the main thread is not registered; its socket, and its block as soon as there is
one, are in the local variables. -/
def MainOk (fds : ℕ → Option ℕ) (heap : ℕ → Option (Block Cb)) (log : List (Event Cb)) :
    Main Cb → Prop
  | .idle => True
  | .send q fd _ cb => fds fd = some q ∧ Event.registered q ∉ log ∧ Event.committed q cb ∈ log ∧
      Event.allocated q ∉ log
  | .calloc q fd cb => fds fd = some q ∧ Event.registered q ∉ log ∧ Event.committed q cb ∈ log ∧
      Event.allocated q ∉ log
  | .fill q fd cb p => fds fd = some q ∧ Event.registered q ∉ log ∧ Event.committed q cb ∈ log ∧
      ∃ arg, heap p = some ⟨q, arg⟩
  | .add q fd p => fds fd = some q ∧ Event.registered q ∉ log ∧
      ∃ cb, Event.committed q cb ∈ log ∧ heap p = some ⟨q, ⟨fd, some cb⟩⟩
  | .exited => True
  | .fault => False

/-- The worker keeps what belongs to the main thread. -/
lemma MainOk.keeps (h : MainOk fds heap log m)
    (hk : Keeps (fun q => Event.registered q ∉ log) fds heap fds' heap') :
    MainOk fds' heap' log m := by
  cases m with
  | idle => trivial
  | send q fd domain cb => exact ⟨hk.socket _ _ h.2.1 h.1, h.2⟩
  | calloc q fd cb => exact ⟨hk.socket _ _ h.2.1 h.1, h.2⟩
  | fill q fd cb p =>
    obtain ⟨hfd, hr, hcb, arg, hp⟩ := h
    exact ⟨hk.socket _ _ hr hfd, hr, hcb, arg, hk.block _ _ hr hp⟩
  | add q fd p =>
    obtain ⟨hfd, hr, cb, hcb, hp⟩ := h
    exact ⟨hk.socket _ _ hr hfd, hr, cb, hcb, hk.block _ _ hr hp⟩
  | exited => trivial
  | fault => exact h

/-- An event that neither allocates nor registers. -/
lemma MainOk.event (h : MainOk fds heap log m) (ha : ∀ q, e ≠ .allocated q)
    (hr : ∀ q, e ≠ .registered q) : MainOk fds heap (log ++ [e]) m := by
  cases m with
  | idle => trivial
  | send q fd domain cb =>
    rw [MainOk, mem_append_of_ne (hr q), mem_append_of_ne (ha q)]
    exact ⟨h.1, h.2.1, List.mem_append_left _ h.2.2.1, h.2.2.2⟩
  | calloc q fd cb =>
    rw [MainOk, mem_append_of_ne (hr q), mem_append_of_ne (ha q)]
    exact ⟨h.1, h.2.1, List.mem_append_left _ h.2.2.1, h.2.2.2⟩
  | fill q fd cb p =>
    rw [MainOk, mem_append_of_ne (hr q)]
    exact ⟨h.1, h.2.1, List.mem_append_left _ h.2.2.1, h.2.2.2⟩
  | add q fd p =>
    obtain ⟨hfd, hnot, cb, hcb, hp⟩ := h
    rw [MainOk, mem_append_of_ne (hr q)]
    exact ⟨hfd, hnot, cb, List.mem_append_left _ hcb, hp⟩
  | exited => trivial
  | fault => exact h

/-- The pointers are different, and each is in an entry. -/
def Batch (interest : List Registration) (todo : List ℕ) : Prop :=
  todo.Nodup ∧ ∀ p ∈ todo, ∃ reg ∈ interest, reg.data = p

/-- The query that is being delivered, while it is in the epoll set. -/
def Current (interest : List Registration) (data fd : ℕ) (todo : List ℕ)
    (P : ℕ → Prop) : Prop :=
  Batch interest (data :: todo) ∧ ∃ reg ∈ interest, reg.data = data ∧ reg.fd = fd ∧ P reg.query

/-- The query that is being delivered, when it is not in the epoll set any more. -/
def Removed (heap : ℕ → Option (Block Cb)) (interest : List Registration)
    (log : List (Event Cb)) (data : ℕ) (todo : List ℕ) (P : ℕ → Prop) : Prop :=
  Batch interest todo ∧ ∃ b, heap data = some b ∧ lastCalled log = some b.query ∧
    (∀ reg ∈ interest, reg.query ≠ b.query) ∧ P b.query

/-- What the worker knows of the query that it delivers, and of those that come after it. -/
def WorkerOk (fds : ℕ → Option ℕ) (heap : ℕ → Option (Block Cb)) (interest : List Registration)
    (log : List (Event Cb)) : Worker → Prop
  | .wait => True
  | .next todo => Batch interest todo
  | .recv data fd todo => Current interest data fd todo fun _ => True
  | .callback data fd todo count domains => Current interest data fd todo fun q =>
      ∃ bytes, Event.received (some q) bytes ∈ log ∧ Parses bytes count domains
  | .del data fd todo count domains =>
      (∃ freed, dnsAsyncClientFreeDomains domains count = .ok freed) ∧
      Current interest data fd todo fun q => lastCalled log = some q
  | .close data fd todo count domains =>
      (∃ freed, dnsAsyncClientFreeDomains domains count = .ok freed) ∧
      Removed heap interest log data todo fun q => fds fd = some q
  | .free data _ todo count domains =>
      (∃ freed, dnsAsyncClientFreeDomains domains count = .ok freed) ∧
      Removed heap interest log data todo fun _ => True
  | .stopped => True
  | .fault => False

/-- The block that the worker is delivering, after the callback and as long as it is in the epoll
set. -/
def Worker.delivering : Worker → Option ℕ
  | .del data _ _ _ _ => some data
  | _ => none

lemma Batch.mono (h : Batch interest todo) (hi : ∀ reg ∈ interest, reg ∈ interest') :
    Batch interest' todo := by
  refine ⟨h.1, fun p hp => ?_⟩
  obtain ⟨reg, hreg, hdata⟩ := h.2 p hp
  exact ⟨reg, hi reg hreg, hdata⟩

lemma Batch.tail (h : Batch interest (p :: todo)) : Batch interest todo :=
  ⟨(List.nodup_cons.1 h.1).2, fun p' hp' => h.2 p' (List.mem_cons_of_mem _ hp')⟩

lemma Current.mono {P P' : ℕ → Prop} (h : Current interest p fd todo P)
    (hi : ∀ reg ∈ interest, reg ∈ interest') (hP : ∀ q, P q → P' q) :
    Current interest' p fd todo P' := by
  obtain ⟨hbatch, reg, hreg, hdata, hfd, hp⟩ := h
  exact ⟨hbatch.mono hi, reg, hi reg hreg, hdata, hfd, hP _ hp⟩

/-- The main thread keeps what belongs to the worker. -/
lemma WorkerOk.keeps (h : WorkerOk fds heap interest log w)
    (hreg : ∀ q, Called q log → Event.registered q ∈ log)
    (hk : Keeps (fun q => Event.registered q ∈ log) fds heap fds' heap')
    (hi : ∀ reg ∈ interest, reg ∈ interest')
    (hi' : ∀ reg ∈ interest', reg ∈ interest ∨ Event.registered reg.query ∉ log) :
    WorkerOk fds' heap' interest' log w := by
  have hremoved : ∀ {p : ℕ} {todo : List ℕ} {P P' : ℕ → Prop}, Removed heap interest log p todo P →
      (∀ q, Event.registered q ∈ log → P q → P' q) → Removed heap' interest' log p todo P' := by
    rintro p todo P P' ⟨hbatch, b, hb, hlast, hnot, hp⟩ hP
    have hr := hreg b.query (called_of_lastCalled hlast)
    refine ⟨hbatch.mono hi, b, hk.block _ _ hr hb, hlast, fun reg hmem hq => ?_, hP _ hr hp⟩
    rcases hi' reg hmem with hmem | hnr
    · exact hnot reg hmem hq
    · exact hnr (hq ▸ hr)
  cases w with
  | wait => trivial
  | next todo => exact Batch.mono h hi
  | recv p fd todo =>
    simp only [WorkerOk] at h ⊢
    exact h.mono hi fun _ h => h
  | callback p fd todo count domains =>
    simp only [WorkerOk] at h ⊢
    exact h.mono hi fun _ h => h
  | del p fd todo count domains => exact ⟨h.1, Current.mono h.2 hi fun _ h => h⟩
  | close p fd todo count domains =>
    exact ⟨h.1, hremoved h.2 fun q hr hfd => hk.socket fd q hr hfd⟩
  | free p fd todo count domains => exact ⟨h.1, hremoved h.2 fun _ _ h => h⟩
  | stopped => trivial
  | fault => exact h

/-- An event that is no callback. -/
lemma WorkerOk.event (h : WorkerOk fds heap interest log w) (hc : e.calledQuery = none) :
    WorkerOk fds heap interest (log ++ [e]) w := by
  cases w with
  | wait => trivial
  | next todo => exact h
  | recv p fd todo => exact h
  | callback p fd todo count domains =>
    simp only [WorkerOk] at h ⊢
    refine h.mono (fun _ h => h) ?_
    rintro q ⟨bytes, hbytes, hparse⟩
    exact ⟨bytes, List.mem_append_left _ hbytes, hparse⟩
  | del p fd todo count domains =>
    rw [WorkerOk, lastCalled_append hc]
    exact h
  | close p fd todo count domains =>
    rw [WorkerOk, Removed, lastCalled_append hc]
    exact h
  | free p fd todo count domains =>
    rw [WorkerOk, Removed, lastCalled_append hc]
    exact h
  | stopped => trivial
  | fault => exact h

end Threads

/-! ## The invariant -/

variable {s t : State Cb}

/-- The invariant of the process. -/
structure Inv (s : State Cb) : Prop where
  own : Own s.fds s.heap s.queries s.log
  epoll : Epoll s.fds s.heap s.interest s.log s.worker.delivering
  main : MainOk s.fds s.heap s.log s.main
  worker : WorkerOk s.fds s.heap s.interest s.log s.worker

lemma inv_start : Inv (start Cb) := by
  refine ⟨⟨lawful_nil, ?_, ?_, ?_, ?_, ?_, ?_⟩, ⟨?_, ?_, ?_, ?_, ?_⟩, trivial, trivial⟩ <;>
    simp [start, KeyInj, Called]

/-- The main thread leaves the local variables of the worker and its queries alone. -/
lemma Inv.worker_keeps (h : Inv s) {fds : ℕ → Option ℕ} {heap : ℕ → Option (Block Cb)}
    (hk : Keeps (fun q => Event.registered q ∈ s.log) s.fds s.heap fds heap) :
    WorkerOk fds heap s.interest s.log s.worker :=
  h.worker.keeps h.epoll.registered hk (fun _ h => h) fun _ h => Or.inl h

lemma Inv.socket (h : Inv s) {fd : ℕ} (hfd : s.fds fd = none) (domain : List UInt8) (cb : Cb) :
    Inv { s with
      fds := Function.update s.fds fd (some s.queries)
      queries := s.queries + 1
      main := .send s.queries fd domain cb
      log := s.log ++ [.committed s.queries cb] } := by
  have hk : Keeps (fun q => Event.registered q ∈ s.log) s.fds s.heap
      (Function.update s.fds fd (some s.queries)) s.heap := by
    refine ⟨fun fd' q _ hfd' => update_some_eq_some.2 (Or.inr ⟨?_, hfd'⟩), fun _ _ _ h => h⟩
    rintro rfl
    rw [hfd] at hfd'
    cases hfd'
  refine ⟨(h.own.socket fd).event trivial (by simp [Event.Neutral]),
    (h.epoll.keeps hk).event (by simp) rfl, ?_, (h.worker_keeps hk).event rfl⟩
  refine ⟨Function.update_self _ _ _, fun hr => ?_, by simp, fun ha => ?_⟩
  · exact absurd (h.own.registered_lt _ ((mem_append_of_ne (by simp)).1 hr)) (lt_irrefl _)
  · exact absurd (h.own.allocated_lt _ ((mem_append_of_ne (by simp)).1 ha)) (lt_irrefl _)

lemma Inv.sendto (h : Inv s) {q fd : ℕ} {domain : List UInt8} {cb : Cb}
    (hm : s.main = .send q fd domain cb) (socket : Option ℕ) (length : ℕ)
    (request : List (Option UInt8)) :
    Inv { s with
      main := .calloc q fd cb
      log := s.log ++ [.sent socket length request] } := by
  have hmain := h.main
  rw [hm] at hmain
  exact ⟨h.own.event trivial (by simp [Event.Neutral]), h.epoll.event (by simp) rfl,
    @MainOk.event _ _ _ _ _ (.calloc q fd cb) hmain (by simp) (by simp), h.worker.event rfl⟩

lemma Inv.calloc (h : Inv s) {q fd p : ℕ} {cb : Cb} (hm : s.main = .calloc q fd cb)
    (hp : s.heap p = none) :
    Inv { s with
      heap := Function.update s.heap p (some ⟨q, ⟨0, none⟩⟩)
      main := .fill q fd cb p
      log := s.log ++ [.allocated q] } := by
  have hmain := h.main
  rw [hm] at hmain
  obtain ⟨hfd, hr, hcb, ha⟩ := hmain
  have hk : Keeps (fun q => Event.registered q ∈ s.log) s.fds s.heap s.fds
      (Function.update s.heap p (some ⟨q, ⟨0, none⟩⟩)) := by
    refine ⟨fun _ _ _ h => h, fun p' b _ hp' => update_some_eq_some.2 (Or.inr ⟨?_, hp'⟩)⟩
    rintro rfl
    rw [hp] at hp'
    cases hp'
  refine ⟨h.own.calloc (h.own.socket_lt fd q hfd) ha _, (h.epoll.keeps hk).event (by simp) rfl, ?_,
    (h.worker_keeps hk).event rfl⟩
  refine ⟨hfd, fun hr' => hr ((mem_append_of_ne (by simp)).1 hr'), List.mem_append_left _ hcb,
    ⟨0, none⟩, Function.update_self _ _ _⟩

lemma Inv.fill (h : Inv s) {q fd p : ℕ} {cb : Cb} {b : Block Cb} (hm : s.main = .fill q fd cb p)
    (hp : s.heap p = some b) :
    Inv { s with
      heap := Function.update s.heap p (some ⟨b.query, ⟨fd, some cb⟩⟩)
      main := .add q fd p
      log := s.log ++ [.accessed b.query] } := by
  have hmain := h.main
  rw [hm] at hmain
  obtain ⟨hfd, hr, hcb, arg, harg⟩ := hmain
  obtain rfl := Option.some.inj (hp.symm.trans harg)
  have hk : Keeps (fun q => Event.registered q ∈ s.log) s.fds s.heap s.fds
      (Function.update s.heap p (some ⟨q, ⟨fd, some cb⟩⟩)) := by
    refine ⟨fun _ _ _ h => h, fun p' b' hr' hp' => update_some_eq_some.2 (Or.inr ⟨?_, hp'⟩)⟩
    rintro rfl
    obtain rfl := Option.some.inj (hp.symm.trans hp')
    exact hr hr'
  refine ⟨(h.own.write hp _).event (h.own.live p _ hp) (by simp [Event.Neutral]),
    (h.epoll.keeps hk).event (by simp) rfl, ?_, (h.worker_keeps hk).event rfl⟩
  exact ⟨hfd, fun hr' => hr ((mem_append_of_ne (by simp)).1 hr'), cb, List.mem_append_left _ hcb,
    Function.update_self _ _ _⟩

lemma Inv.add (h : Inv s) {q fd p q' : ℕ} (hm : s.main = .add q fd p) (hfd' : s.fds fd = some q') :
    Inv { s with
      interest := s.interest ++ [⟨fd, q', p⟩]
      main := .idle
      log := s.log ++ [.registered q'] } := by
  have hmain := h.main
  rw [hm] at hmain
  obtain ⟨hfd, hr, cb, hcb, hp⟩ := hmain
  obtain rfl := Option.some.inj (hfd.symm.trans hfd')
  refine ⟨h.own.register (h.own.socket_lt fd q hfd), h.epoll.add hfd hp hcb hr, trivial,
    WorkerOk.event (h.worker.keeps h.epoll.registered Keeps.refl ?_ ?_) rfl⟩
  · intro reg hreg
    exact List.mem_append_left _ hreg
  · intro reg hreg
    rcases List.mem_append.1 hreg with hreg | hreg
    · exact Or.inl hreg
    · cases List.mem_singleton.1 hreg
      exact Or.inr hr

lemma Inv.epollWait (h : Inv s) {regs : List Registration} (hw : s.worker = .wait)
    (hnodup : regs.Nodup) (hsub : ∀ reg ∈ regs, reg ∈ s.interest) :
    Inv { s with worker := .next (regs.map Registration.data) } := by
  have hepoll := h.epoll
  rw [hw] at hepoll
  refine ⟨h.own, hepoll, h.main, ?_, fun p hp => ?_⟩
  · exact hnodup.map_on fun reg hreg reg' hreg' heq =>
      hepoll.data_inj (hsub reg hreg) (hsub reg' hreg') heq
  · obtain ⟨reg, hreg, rfl⟩ := List.mem_map.1 hp
    exact ⟨reg, hsub reg hreg, rfl⟩

lemma Inv.load (h : Inv s) {p : ℕ} {todo : List ℕ} {b : Block Cb}
    (hw : s.worker = .next (p :: todo)) (hp : s.heap p = some b) :
    Inv { s with
      worker := .recv p b.arg.sockfd todo
      log := s.log ++ [.accessed b.query] } := by
  have hepoll := h.epoll
  have hworker := h.worker
  rw [hw] at hepoll hworker
  obtain ⟨reg, hreg, rfl⟩ := hworker.2 p List.mem_cons_self
  obtain ⟨cb, hb, -⟩ := (hepoll.entry reg hreg).block
  obtain rfl := Option.some.inj (hp.symm.trans hb)
  exact ⟨h.own.event (h.own.live _ _ hp) (by simp [Event.Neutral]), hepoll.event (by simp) rfl,
    h.main.event (by simp) (by simp), hworker, reg, hreg, rfl, rfl, trivial⟩

lemma Inv.recvfrom (h : Inv s) {p fd : ℕ} {todo : List ℕ} {bytes : Option (List UInt8)} {count : ℤ}
    {domains : Option (List DnsItem)} (hw : s.worker = .recv p fd todo)
    (hparse : Parses bytes count domains) :
    Inv { s with
      worker := .callback p fd todo count domains
      log := s.log ++ [.received (s.fds fd) bytes] } := by
  have hepoll := h.epoll
  have hworker := h.worker
  rw [hw] at hepoll hworker
  obtain ⟨hbatch, reg, hreg, hdata, rfl, -⟩ := hworker
  have hsocket := (hepoll.entry reg hreg).socket
  refine ⟨h.own.event trivial (by simp [Event.Neutral]), hepoll.event (by simp) rfl,
    h.main.event (by simp) (by simp), hbatch, reg, hreg, hdata, rfl, bytes, ?_, hparse⟩
  simp [hsocket]

lemma Inv.callback (h : Inv s) {p fd : ℕ} {todo : List ℕ} {count : ℤ}
    {domains : Option (List DnsItem)} {b : Block Cb} {cb : Cb}
    (hw : s.worker = .callback p fd todo count domains) (hp : s.heap p = some b)
    (hcb : b.arg.cb = some cb) :
    Inv { s with
      worker := .del p fd todo count domains
      log := s.log ++ [.accessed b.query] ++ [.called b.query cb count domains] } := by
  have hepoll := h.epoll
  have hworker := h.worker
  rw [hw] at hepoll hworker
  obtain ⟨hbatch, reg, hreg, rfl, rfl, bytes, hbytes, hparse⟩ := hworker
  obtain ⟨cb', hb, hcommitted⟩ := (hepoll.entry reg hreg).block
  obtain rfl := Option.some.inj (hp.symm.trans hb)
  obtain rfl := Option.some.inj hcb
  have hnot : ¬ Called reg.query s.log := by
    intro hcalled
    cases hepoll.called reg hreg hcalled
  have hown : Own s.fds s.heap s.queries (s.log ++ [.accessed reg.query]) :=
    h.own.event (h.own.live _ _ hp) (by simp [Event.Neutral])
  refine ⟨hown.event ⟨List.mem_append_left _ hcommitted, fun hcalled => hnot ?_, bytes,
      List.mem_append_left _ hbytes, hparse⟩ (by simp [Event.Neutral]),
    (hepoll.event (by simp) rfl).call hreg _ _ _,
    (h.main.event (by simp) (by simp)).event (by simp) (by simp), hparse.freeDomains, hbatch, reg,
    hreg, rfl, rfl, lastCalled_append_called⟩
  rcases called_append.1 hcalled with hcalled | hcalled
  · exact hcalled
  · cases hcalled

lemma Inv.del (h : Inv s) {p fd : ℕ} {todo : List ℕ} {count : ℤ}
    {domains : Option (List DnsItem)} (hw : s.worker = .del p fd todo count domains) :
    Inv { s with
      interest := epollCtlDel s.interest fd (s.fds fd)
      worker := .close p fd todo count domains
      log := s.log ++ [.deregistered fd (s.fds fd)] } := by
  have hepoll := h.epoll
  have hworker := h.worker
  rw [hw] at hepoll hworker
  obtain ⟨hfree, hbatch, reg, hreg, rfl, rfl, hlast⟩ := hworker
  obtain ⟨-, hsocket, cb, hb, -⟩ := hepoll.entry reg hreg
  -- the entry of the query is the only one that is taken out
  have hkeep : ∀ reg' ∈ s.interest,
      decide (¬ (reg'.fd = reg.fd ∧ s.fds reg.fd = some reg'.query)) = false ↔ reg' = reg := by
    intro reg' hreg'
    rw [decide_eq_false_iff_not, not_not, hsocket]
    constructor
    · rintro ⟨-, hq⟩
      exact hepoll.entry_eq hreg' hreg (Option.some.inj hq).symm
    · rintro rfl
      exact ⟨rfl, rfl⟩
  have hcalled := called_of_lastCalled hlast
  have hmem : ∀ reg' ∈ s.interest, reg' ≠ reg →
      reg' ∈ epollCtlDel s.interest reg.fd (s.fds reg.fd) := by
    intro reg' hreg' hne
    refine List.mem_filter.2 ⟨hreg', ?_⟩
    by_contra hk
    exact hne ((hkeep reg' hreg').1 (Bool.eq_false_iff.2 hk))
  refine ⟨h.own.event ⟨reg.query, hsocket, hlast⟩ (by simp [Event.Neutral]),
    (hepoll.filter (fun reg' hreg' hk => ?_) fun reg' hreg' hdata => ?_).event (by simp) rfl,
    h.main.event (by simp) (by simp), WorkerOk.event ⟨hfree, ⟨hbatch.tail.1, fun p' hp' => ?_⟩,
      _, hb, hlast, fun reg' hreg' hq => ?_, hsocket⟩ rfl⟩
  · rw [(hkeep reg' hreg').1 hk]
    exact hcalled
  · exact (hkeep reg' hreg').2 (hepoll.data_inj hreg' hreg (Option.some.inj hdata).symm)
  · obtain ⟨reg', hreg', rfl⟩ := hbatch.tail.2 p' hp'
    refine ⟨reg', hmem reg' hreg' ?_, rfl⟩
    rintro rfl
    exact (List.nodup_cons.1 hbatch.1).1 hp'
  · obtain ⟨hreg', hk⟩ := List.mem_filter.1 hreg'
    rw [(hkeep reg' hreg').2 (hepoll.entry_eq hreg' hreg hq)] at hk
    cases hk

/-- The queries that are delivered do not belong to the main thread. -/
lemma Inv.registered_of_lastCalled (h : Inv s) {q : ℕ} (hlast : lastCalled s.log = some q) :
    Event.registered q ∈ s.log := h.epoll.registered q (called_of_lastCalled hlast)

lemma Inv.close (h : Inv s) {p fd : ℕ} {todo : List ℕ} {count : ℤ}
    {domains : Option (List DnsItem)} (hw : s.worker = .close p fd todo count domains) :
    Inv { s with
      fds := Function.update s.fds fd none
      interest := dropClosed s.interest (s.fds fd)
      worker := .free p fd todo count domains
      log := s.log ++ [.closed fd (s.fds fd)] } := by
  have hepoll := h.epoll
  have hworker := h.worker
  rw [hw] at hepoll hworker
  obtain ⟨hfree, hbatch, b, hb, hlast, hnot, hfd⟩ := hworker
  -- the socket is not in the epoll set any more
  have hsame : dropClosed s.interest (s.fds fd) = s.interest := by
    refine List.filter_eq_self.2 fun reg hreg => ?_
    rw [hfd]
    exact decide_eq_true fun heq => hnot reg hreg (Option.some.inj heq).symm
  have hk : ∀ {P : ℕ → Prop}, ¬ P b.query →
      Keeps P s.fds s.heap (Function.update s.fds fd none) s.heap := by
    refine fun hP => ⟨fun fd' q hq hfd' => update_none_eq_some.2 ⟨?_, hfd'⟩, fun _ _ _ h => h⟩
    rintro rfl
    obtain rfl := Option.some.inj (hfd.symm.trans hfd')
    exact hP hq
  have hr := h.registered_of_lastCalled hlast
  rw [hsame]
  refine ⟨(h.own.close fd).event ⟨b.query, hfd, hlast⟩ (by simp [Event.Neutral]),
    (hepoll.keeps_entries (hk ?_)).event (by simp) rfl,
    (h.main.keeps (hk (not_not.2 hr))).event (by simp) (by simp),
    WorkerOk.event ⟨hfree, hbatch, b, hb, hlast, hnot, trivial⟩ rfl⟩
  rintro ⟨reg, hreg, hq⟩
  exact hnot reg hreg hq

lemma Inv.free (h : Inv s) {p fd : ℕ} {todo : List ℕ} {count : ℤ}
    {domains : Option (List DnsItem)} {b : Block Cb}
    (hw : s.worker = .free p fd todo count domains) (hp : s.heap p = some b) :
    Inv { s with
      heap := Function.update s.heap p none
      worker := .next todo
      log := s.log ++ [.freed b.query] } := by
  have hepoll := h.epoll
  have hworker := h.worker
  rw [hw] at hepoll hworker
  obtain ⟨-, hbatch, b', hb, hlast, hnot, -⟩ := hworker
  obtain rfl := Option.some.inj (hp.symm.trans hb)
  have hk : ∀ {P : ℕ → Prop}, ¬ P b.query →
      Keeps P s.fds s.heap s.fds (Function.update s.heap p none) := by
    refine fun hP => ⟨fun _ _ _ h => h, fun p' b' hq hp' => update_none_eq_some.2 ⟨?_, hp'⟩⟩
    rintro rfl
    obtain rfl := Option.some.inj (hp.symm.trans hp')
    exact hP hq
  have hr := h.registered_of_lastCalled hlast
  refine ⟨h.own.free hp, (hepoll.keeps_entries (hk ?_)).event (by simp) rfl,
    (h.main.keeps (hk (not_not.2 hr))).event (by simp) (by simp), hbatch⟩
  rintro ⟨reg, hreg, hq⟩
  exact hnot reg hreg hq

/-- A step of the worker that only changes its local variables. -/
lemma Inv.withWorker (h : Inv s) {w : Worker} (hw : s.worker.delivering = none)
    (hw' : w.delivering = none) (hok : WorkerOk s.fds s.heap s.interest s.log w) :
    Inv { s with worker := w } := by
  have hepoll := h.epoll
  rw [hw] at hepoll
  exact ⟨h.own, by rw [hw']; exact hepoll, h.main, hok⟩

/-- The invariant holds after every step. -/
lemma Step.inv (hst : Step s t) (h : Inv s) : Inv t := by
  have hmain := h.main
  have hworker := h.worker
  cases hst with
  | socket fd domain cb hm hfd => exact h.socket hfd domain cb
  | socketFail hm => exact ⟨h.own, h.epoll, trivial, h.worker⟩
  | sendto id malloc hm hreq => exact h.sendto hm _ _ _
  | calloc p hm hp => exact h.calloc hm hp
  | callocFail hm => exact ⟨h.own, h.epoll, trivial, h.worker⟩
  | fill hm hp => exact h.fill hm hp
  | fillFault hm hp =>
    rw [hm] at hmain
    obtain ⟨-, -, -, arg, harg⟩ := hmain
    rw [hp] at harg
    cases harg
  | add hm hfd hnew => exact h.add hm hfd
  | addFail hm => exact ⟨h.own, h.epoll, trivial, h.worker⟩
  | waitAgain hw => exact h
  | waitFail hw => exact h.withWorker (by rw [hw]; rfl) rfl trivial
  | epollWait regs hw hne hlen hnodup hsub => exact h.epollWait hw hnodup hsub
  | batchDone hw => exact h.withWorker (by rw [hw]; rfl) rfl trivial
  | load hw hp => exact h.load hw hp
  | @loadFault p todo hw hp =>
    rw [hw] at hworker
    obtain ⟨reg, hreg, rfl⟩ := hworker.2 p List.mem_cons_self
    obtain ⟨cb, hb, -⟩ := (h.epoll.entry reg hreg).block
    rw [hp] at hb
    cases hb
  | recvfrom bytes hw hbytes hparse => exact h.recvfrom hw hparse
  | callback hw hp hcb => exact h.callback hw hp hcb
  | callbackFault hw hp =>
    rw [hw] at hworker
    obtain ⟨-, reg, hreg, rfl, -⟩ := hworker
    obtain ⟨cb, hb, -⟩ := (h.epoll.entry reg hreg).block
    cases hp _ hb
  | epollCtlDel hw => exact h.del hw
  | close hw => exact h.close hw
  | free hw hdomains hp => exact h.free hw hp
  | freeFault hw hbad =>
    rw [hw] at hworker
    obtain ⟨⟨freed, hfree⟩, -, b, hb, -⟩ := hworker
    rcases hbad with ⟨e, he⟩ | hp
    · rw [hfree] at he
      cases he
    · rw [hp] at hb
      cases hb

/-- The invariant holds in every state of the process. -/
lemma Reaches.inv (h : Reaches s) : Inv s := by
  refine Reachable.invariant (fun s₀ h₀ => ?_) (fun _ _ _ hinv hst => hst.inv hinv) h
  rw [h₀]
  exact inv_start

/-! ## Delivery -/

/-- No thread has accessed an object that is not in memory; every event was allowed where it
happened; and a query that was registered and not delivered is in the epoll set, with its block
in memory. -/
structure Delivered (s : State Cb) : Prop where
  main_ok : s.main ≠ .fault
  worker_ok : s.worker ≠ .fault
  log : Lawful Allowed s.log
  stays : ∀ q, Event.registered q ∈ s.log → ¬ Called q s.log →
    ∃ reg ∈ s.interest, reg.query = q ∧ s.fds reg.fd = some q ∧
      ∃ b, s.heap reg.data = some b ∧ b.query = q

/-- **Every query is delivered at most once, on its own socket**, in whatever order the steps of
the two threads come, and whichever free numbers and addresses are reused. -/
theorem delivery (h : Reaches s) : Delivered s := by
  have hinv := h.inv
  refine ⟨fun hm => ?_, fun hw => ?_, hinv.own.lawful, fun q hq hnot => ?_⟩
  · have hmain := hinv.main
    rw [hm] at hmain
    exact hmain
  · have hworker := hinv.worker
    rw [hw] at hworker
    exact hworker
  · obtain ⟨reg, hreg, rfl⟩ := hinv.epoll.pending q hq hnot
    obtain ⟨-, hsocket, cb, hb, -⟩ := hinv.epoll.entry reg hreg
    exact ⟨reg, hreg, rfl, hsocket, _, hb, rfl⟩

/-! ## Queries are delivered -/

/-- A call of `dns_async_client_commit` in which nothing fails puts its query into the epoll
set. -/
lemma Reaches.exists_registered (h : Reaches s) (hm : s.main = .idle) {fd p : ℕ}
    (hfd : s.fds fd = none) (hp : s.heap p = none) {id : UInt16} {malloc : Bool}
    {domain : List UInt8} {length : ℕ} {request : List (Option UInt8)}
    (hreq : commitRequest id malloc domain = .ok (length, request)) (cb : Cb) :
    ∃ t : State Cb, Reaches t ∧ t.worker = s.worker ∧
      ∃ reg ∈ t.interest, reg.query = s.queries := by
  have h₁ : Reaches _ := h.tail (Step.socket fd domain cb hm hfd)
  have h₂ : Reaches _ := h₁.tail (Step.sendto id malloc rfl hreq)
  have h₃ : Reaches _ := h₂.tail (Step.calloc p rfl hp)
  have h₄ : Reaches _ := h₃.tail (Step.fill rfl (Function.update_self _ _ _))
  have hnew : Event.registered s.queries ∉ _ := h₄.inv.main.2.1
  refine ⟨_, h₄.tail (Step.add rfl (Function.update_self _ _ _) fun reg hreg hq => ?_), rfl, _,
    List.mem_append_right _ (List.mem_singleton_self _), rfl⟩
  exact hnew (hq.2 ▸ (h₄.inv.epoll.entry reg hreg).registered)

/-- A waiting worker can deliver any query of the epoll set. -/
lemma Reaches.exists_delivered (h : Reaches s) (hw : s.worker = .wait) {reg : Registration}
    (hreg : reg ∈ s.interest) {bytes : List UInt8} (hlen : bytes.length ≤ 1024) {count : ℤ}
    {domains : Option (List DnsItem)} (hparse : Parses (some bytes) count domains) :
    ∃ t : State Cb, Reaches t ∧ Called reg.query t.log ∧ Event.freed reg.query ∈ t.log := by
  obtain ⟨-, hsocket, cb, hb, -⟩ := h.inv.epoll.entry reg hreg
  obtain ⟨freed, hfreed⟩ := hparse.freeDomains
  have hbytes : ∀ x, some bytes = some x → x.length ≤ 1024 ∧ s.fds reg.fd ≠ none := by
    intro x hx
    rw [← Option.some.inj hx, hsocket]
    exact ⟨hlen, Option.some_ne_none _⟩
  have h₁ : Reaches _ := h.tail (Step.epollWait [reg] hw (List.cons_ne_nil _ _)
    (by simp [asyncClientNum]) (List.nodup_singleton _)
    fun reg' hreg' => List.mem_singleton.1 hreg' ▸ hreg)
  have h₂ : Reaches _ := h₁.tail (Step.load rfl hb)
  have h₃ : Reaches _ := h₂.tail (Step.recvfrom (some bytes) rfl hbytes hparse)
  have h₄ : Reaches _ := h₃.tail (Step.callback rfl hb rfl)
  have h₅ : Reaches _ := h₄.tail (Step.epollCtlDel rfl)
  have h₆ : Reaches _ := h₅.tail (Step.close rfl)
  refine ⟨_, h₆.tail (Step.free rfl hfreed hb), ⟨cb, count, domains, ?_⟩, ?_⟩
  · simp only [List.mem_append, List.mem_singleton, true_or, or_true]
  · simp only [List.mem_append, List.mem_singleton, or_true]

lemma commitRequest_sample :
    ∃ length request, commitRequest 7 true (dotted [[97]]) = .ok (length, request) := by
  have hlabel : ∀ l ∈ [[(97 : UInt8)]], HostLabel l := by
    intro l hl
    obtain rfl := List.mem_singleton.1 hl
    exact ⟨by unfold LabelOk; decide, by decide, by decide⟩
  have hquestion := dnsCreateQuestion_dotted (by simp) hlabel
  have hbuild := @dnsBuildRequest_eq (dnsCreateHeader 7)
    ⟨(dotted [[97]]).length + 2, htons 1, htons 1, (encodeName [[97]]).map some⟩
    (encodeName [[97]]) rfl rfl (by decide) 1024 (by decide)
  rw [commitRequest, hquestion, ok_bind]
  exact ⟨_, _, hbuild⟩

/-- A query for `a` that is answered by `sampleMessage`. -/
theorem delivery_oneQuery : ∃ s : State ℕ, Called 0 s.log ∧ Event.freed 0 ∈ s.log ∧
    Delivered s := by
  obtain ⟨length, request, hreq⟩ := commitRequest_sample
  obtain ⟨n, hn⟩ := sampleMessage_wellFormed.returns
  obtain ⟨rest, hok⟩ := hn n le_rfl
  have hparse : Parses (some sampleMessage.wire) _ _ := ⟨n, true, hok⟩
  have h : Reaches (start ℕ) := Reachable.of_init rfl
  obtain ⟨s, hs, hw, reg, hreg, hq⟩ :=
    @Reaches.exists_registered _ _ h rfl 3 0 rfl rfl _ _ _ _ _ hreq 5
  obtain ⟨t, ht, hcalled, hfreed⟩ :=
    hs.exists_delivered hw hreg sampleMessage_wellFormed.size hparse
  rw [hq] at hcalled hfreed
  exact ⟨t, hcalled, hfreed, delivery ht⟩

end CppExample.Dns.Async
