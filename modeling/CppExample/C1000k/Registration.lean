/-
# What the c1000k server registers

The part of the server's state that epoll and the kernel see: which descriptors are
registered, for what, and which events of the current batch are still due.  `Change` says
how handling an event can change it, whatever happens in the memory; `Registered` is the
invariant.  `State.Listed` adds the events of the batch, and every change keeps it.
-/
import CppExample.C1000k.Server

namespace CppExample.C1000k
open Lib

variable {ok : ℕ → Bool} {sockfds : Finset ℤ} {s t : State} {e : Event}

/-! ## The calls on a connection -/

/-- Is it a `recv`? -/
def Act.isRecv : Act → Bool
  | .recv _ => true
  | .send _ _ => false

/-- The calls are in turn a `recv` and a `send`, beginning with a `recv`. -/
def Alternates (log : List Act) : Prop :=
  ∀ i a, log[i]? = some a → (a.isRecv = true ↔ i % 2 = 0)

/-- The last `recv` has not been followed by a `send`. -/
def Unanswered (log : List Act) : Prop := ∃ l bytes, log = l ++ [Act.recv bytes]

lemma alternates_nil : Alternates [] := by
  intro i a h
  simp at h

lemma Alternates.snoc {log : List Act} (h : Alternates log) {a : Act}
    (ha : a.isRecv = true ↔ log.length % 2 = 0) : Alternates (log ++ [a]) := by
  intro i b hb
  rcases lt_trichotomy i log.length with hi | hi | hi
  · rw [List.getElem?_append_left hi] at hb
    exact h i b hb
  · subst hi
    rw [List.getElem?_concat_length, Option.some.injEq] at hb
    rw [← hb]
    exact ha
  · rw [List.getElem?_eq_none (by simp; omega)] at hb
    cases hb

/-- A `recv` is unanswered after an odd number of calls. -/
lemma Alternates.unanswered_iff {log : List Act} (h : Alternates log) :
    Unanswered log ↔ log.length % 2 = 1 := by
  rcases List.eq_nil_or_concat log with rfl | ⟨l, a, rfl⟩
  · simp [Unanswered]
  · rw [List.concat_eq_append] at h ⊢
    have hlast := h l.length a List.getElem?_concat_length
    have hlen : (l ++ [a]).length = l.length + 1 := by simp
    constructor
    · rintro ⟨l', bytes, heq⟩
      obtain ⟨-, rfl⟩ := List.append_inj' heq rfl |>.imp_right (List.singleton_inj.1 ·)
      have heven := hlast.1 rfl
      omega
    · intro hodd
      have hrecv : a.isRecv = true := hlast.2 (by omega)
      cases a with
      | recv bytes => exact ⟨l, bytes, rfl⟩
      | send given transferred => cases hrecv

/-! ## What handling an event can change -/

/-- The event is for a listening descriptor, or for an open connection that is registered
for it. -/
def Due (sockfds : Finset ℤ) (s : State) (e : Event) : Prop :=
  e.fd ∈ sockfds ∨ e.fd ∈ s.conns ∧
    (e.epollin = true → s.interest e.fd = some .epollin) ∧
    (e.epollout = true → s.interest e.fd = some .epollout)

/-- How handling the event can change what is registered and the calls. -/
inductive Change (sockfds : Finset ℤ) (s : State) (e : Event) : State → Prop
  /-- `accept` has failed. -/
  | abandon {w' : World} (hl : e.fd ∈ sockfds) :
      Change sockfds s e { s with world := w', batch := [] }
  /-- A new connection. -/
  | accept {c : ℤ} {w' : World} (hl : e.fd ∈ sockfds) (hpos : 0 < c) (hc : c ∉ sockfds)
      (hnew : c ∉ s.conns) :
      Change sockfds s e { s with
        world := w'
        conns := insert c s.conns
        interest := Function.update s.interest c (some .epollin)
        log := Function.update s.log c [] }
  /-- Bytes were received. -/
  | recv {w' : World} (bytes : List UInt8) (hc : e.fd ∈ s.conns)
      (hi : s.interest e.fd = some .epollin) :
      Change sockfds s e { s with
        world := w'
        interest := epollMod s.interest e.fd .epollout
        log := Function.update s.log e.fd (s.log e.fd ++ [.recv bytes]) }
  /-- The connection was closed. -/
  | close {w' : World} (hc : e.fd ∈ s.conns) :
      Change sockfds s e { s with
        world := w'
        conns := s.conns.erase e.fd
        interest := Function.update s.interest e.fd none }
  /-- Bytes were sent. -/
  | send {w' : World} (given transferred : List UInt8) (hc : e.fd ∈ s.conns)
      (hi : s.interest e.fd = some .epollout) :
      Change sockfds s e { s with
        world := w'
        interest := epollMod s.interest e.fd .epollin
        log := Function.update s.log e.fd (s.log e.fd ++ [.send given transferred]) }
  /-- Nothing but the memory: `recv` has failed, or the connection was neither readable nor
  writable. -/
  | none {w' : World} : Change sockfds s e { s with world := w' }

/-- Handling an event leaves the other connections as they are registered. -/
lemma Change.frame (h : Change sockfds s e t) {fd : ℤ} (hfd : fd ∈ s.conns) (hne : fd ≠ e.fd) :
    fd ∈ t.conns ∧ t.interest fd = s.interest fd := by
  have hmod : ∀ i, epollMod s.interest e.fd i fd = s.interest fd := fun i => epollMod_of_ne i hne
  cases h with
  | abandon hl => exact ⟨hfd, rfl⟩
  | @accept c w' hl hpos hc hnew =>
    have hne' : fd ≠ c := fun heq => hnew (heq ▸ hfd)
    exact ⟨Finset.mem_insert_of_mem hfd, Function.update_of_ne hne' _ _⟩
  | recv bytes hc hi => exact ⟨hfd, hmod _⟩
  | close hc => exact ⟨Finset.mem_erase.2 ⟨hne, hfd⟩, Function.update_of_ne hne _ _⟩
  | send given transferred hc hi => exact ⟨hfd, hmod _⟩
  | none => exact ⟨hfd, rfl⟩

/-- The other events of the batch are still due. -/
lemma Change.due (h : Change sockfds s e t) {e' : Event} (hne : e'.fd ≠ e.fd)
    (hdue : Due sockfds s e') : Due sockfds t e' := by
  rcases hdue with hl | ⟨hc, hin, hout⟩
  · exact Or.inl hl
  · obtain ⟨hc', hi⟩ := h.frame hc hne
    rw [← hi] at hin hout
    exact Or.inr ⟨hc', hin, hout⟩

lemma Change.batch (h : Change sockfds s e t) : t.batch = s.batch ∨ t.batch = [] := by
  cases h with
  | abandon hl => exact Or.inr rfl
  | _ => exact Or.inl rfl

/-! ## What is registered -/

/-- The invariant of epoll. -/
structure Registered (sockfds : Finset ℤ) (s : State) : Prop where
  conns : ∀ fd ∈ s.conns, 0 < fd ∧ fd ∉ sockfds
  interest : ∀ fd, (s.interest fd).isSome ↔ (fd ∈ sockfds ∧ 0 ≤ fd) ∨ fd ∈ s.conns
  alternates : ∀ fd ∈ s.conns, Alternates (s.log fd)
  phase : ∀ fd ∈ s.conns, s.interest fd = some .epollout ↔ (s.log fd).length % 2 = 1

lemma registered_start : Registered sockfds (State.start sockfds) := by
  refine ⟨fun fd hfd => absurd hfd (Finset.notMem_empty fd), fun fd => ?_,
    fun fd hfd => absurd hfd (Finset.notMem_empty fd),
    fun fd hfd => absurd hfd (Finset.notMem_empty fd)⟩
  show (if fd ∈ sockfds ∧ 0 ≤ fd then some Interest.epollin else none).isSome ↔ _
  simp [State.start]

/-- `EPOLL_CTL_MOD` on an open connection. -/
lemma Registered.epollMod_eq (h : Registered sockfds s) {fd : ℤ} (hfd : fd ∈ s.conns)
    (i : Interest) : epollMod s.interest fd i = Function.update s.interest fd (some i) := by
  rw [epollMod, if_pos ((h.interest fd).2 (Or.inr hfd))]

/-- A new interest and a further call on an open connection. -/
lemma Registered.update (h : Registered sockfds s) {fd : ℤ} (hfd : fd ∈ s.conns) {i : Interest}
    {log : List Act} (hlog : Alternates log) (hi : i = .epollout ↔ log.length % 2 = 1)
    (w' : World) : Registered sockfds { s with
      world := w'
      interest := Function.update s.interest fd (some i)
      log := Function.update s.log fd log } := by
  refine ⟨h.conns, fun fd' => ?_, fun fd' hfd' => ?_, fun fd' hfd' => ?_⟩
  · by_cases heq : fd' = fd
    · subst heq
      exact iff_of_true (by simp) (Or.inr hfd)
    · simpa [heq] using h.interest fd'
  · by_cases heq : fd' = fd
    · subst heq
      simpa using hlog
    · simpa [heq] using h.alternates fd' hfd'
  · by_cases heq : fd' = fd
    · subst heq
      simpa using hi
    · simpa [heq] using h.phase fd' hfd'

/-- A new connection. -/
lemma Registered.insert (h : Registered sockfds s) {c : ℤ} (hpos : 0 < c) (hc : c ∉ sockfds)
    (w' : World) : Registered sockfds { s with
      world := w'
      conns := Insert.insert c s.conns
      interest := Function.update s.interest c (some .epollin)
      log := Function.update s.log c [] } := by
  refine ⟨fun fd hfd => ?_, fun fd => ?_, fun fd hfd => ?_, fun fd hfd => ?_⟩
  · rcases Finset.mem_insert.1 hfd with rfl | hfd
    · exact ⟨hpos, hc⟩
    · exact h.conns fd hfd
  · by_cases heq : fd = c
    · subst heq
      exact iff_of_true (by simp) (Or.inr (Finset.mem_insert_self _ _))
    · simpa [heq] using h.interest fd
  · by_cases heq : fd = c
    · subst heq
      simpa using alternates_nil
    · simpa [heq] using h.alternates fd (Finset.mem_of_mem_insert_of_ne hfd heq)
  · by_cases heq : fd = c
    · subst heq
      simp
    · simpa [heq] using h.phase fd (Finset.mem_of_mem_insert_of_ne hfd heq)

/-- A connection is closed. -/
lemma Registered.erase (h : Registered sockfds s) {fd : ℤ} (hfd : fd ∈ s.conns) (w' : World) :
    Registered sockfds { s with
      world := w'
      conns := s.conns.erase fd
      interest := Function.update s.interest fd none } := by
  refine ⟨fun fd' hfd' => h.conns fd' (Finset.mem_of_mem_erase hfd'), fun fd' => ?_,
    fun fd' hfd' => h.alternates fd' (Finset.mem_of_mem_erase hfd'), fun fd' hfd' => ?_⟩
  · by_cases heq : fd' = fd
    · subst heq
      have hnot := (h.conns fd' hfd).2
      refine iff_of_false (by simp) ?_
      rintro (hl | hmem)
      · exact hnot hl.1
      · exact Finset.notMem_erase fd' s.conns hmem
    · simpa [heq] using h.interest fd'
  · have hne := Finset.ne_of_mem_erase hfd'
    simpa [hne] using h.phase fd' (Finset.mem_of_mem_erase hfd')

lemma Change.registered (h : Change sockfds s e t) (hs : Registered sockfds s) :
    Registered sockfds t := by
  cases h with
  | abandon hl => exact ⟨hs.conns, hs.interest, hs.alternates, hs.phase⟩
  | accept hl hpos hc hnew => exact hs.insert hpos hc _
  | recv bytes hc hi =>
    -- the connection was waiting to receive, so the number of its calls is even
    have heven : (s.log e.fd).length % 2 = 0 := by
      have hodd := (hs.phase e.fd hc).not.1 (by rw [hi]; decide)
      omega
    rw [hs.epollMod_eq hc]
    refine hs.update hc ((hs.alternates e.fd hc).snoc (iff_of_true rfl heven)) ?_ _
    refine iff_of_true rfl ?_
    rw [List.length_append, List.length_singleton]
    omega
  | close hc => exact hs.erase hc _
  | send given transferred hc hi =>
    have hodd : (s.log e.fd).length % 2 = 1 := (hs.phase e.fd hc).1 hi
    rw [hs.epollMod_eq hc]
    refine hs.update hc ((hs.alternates e.fd hc).snoc (iff_of_false ?_ ?_)) ?_ _
    · exact Bool.false_ne_true
    · omega
    · refine iff_of_false (by decide) ?_
      rw [List.length_append, List.length_singleton]
      omega
  | none => exact ⟨hs.conns, hs.interest, hs.alternates, hs.phase⟩

/-! ## The events of a batch -/

/-- What is registered is in order, and so are the events of the current batch. -/
structure State.Listed (sockfds : Finset ℤ) (s : State) : Prop where
  registered : Registered sockfds s
  due : ∀ e ∈ s.batch, Due sockfds s e
  /-- A descriptor has at most one event in a batch. -/
  nodup : (s.batch.map Event.fd).Nodup

lemma listed_start : (State.start sockfds).Listed sockfds :=
  ⟨registered_start, fun _ he => absurd he List.not_mem_nil, List.nodup_nil⟩

/-- A new batch. -/
lemma State.Listed.wait (hs : s.Listed sockfds) {events : List Event}
    (hev : Reportable s events) : ({ s with batch := events } : State).Listed sockfds := by
  obtain ⟨⟨hconns, hinterest, halt, hphase⟩, -, -⟩ := hs
  refine ⟨⟨hconns, hinterest, halt, hphase⟩, fun e he => ?_, hev.nodup⟩
  rcases (hinterest e.fd).1 (hev.registered e he) with hl | hc
  · exact Or.inl hl.1
  · exact Or.inr ⟨hc, hev.epollin e he, hev.epollout e he⟩

/-- The next event of the batch is handled. -/
lemma State.Listed.change (hs : s.Listed sockfds) {rest : List Event} (hb : s.batch = e :: rest)
    (ht : Change sockfds { s with batch := rest } e t) : t.Listed sockfds := by
  obtain ⟨⟨hconns, hinterest, halt, hphase⟩, hdue, hnodup⟩ := hs
  rw [hb, List.map_cons, List.nodup_cons] at hnodup
  have hrest : ∀ e' ∈ rest, Due sockfds t e' := by
    intro e' he'
    have hne : e'.fd ≠ e.fd := fun heq => hnodup.1 (heq ▸ List.mem_map_of_mem he')
    exact ht.due hne (hdue e' (hb ▸ List.mem_cons_of_mem e he'))
  refine ⟨ht.registered ⟨hconns, hinterest, halt, hphase⟩, ?_, ?_⟩
  · rcases ht.batch with hbatch | hbatch
    · rw [hbatch]
      exact hrest
    · rw [hbatch]
      exact fun e' he' => absurd he' List.not_mem_nil
  · rcases ht.batch with hbatch | hbatch
    · rw [hbatch]
      exact hnodup.2
    · rw [hbatch]
      exact List.nodup_nil

end CppExample.C1000k
