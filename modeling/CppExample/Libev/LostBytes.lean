/-
# What the libev echo server sends back

`io_cb` does not look at the result of `write`: whatever was not accepted is cleared with the
rest of the buffer.  This does no harm to the order of the bytes as long as nothing is written
after it.  So a client gets back a beginning of what it has sent, if every write that accepts
something comes when nothing was lost before; and a write for which this is not so puts bytes
behind a gap.
-/
import CppExample.Libev.EchoServer

namespace CppExample.Libev
open Lib

/-- The bytes that were read from the socket in this entry. -/
def Event.received (fd : ℤ) : Event → List UInt8
  | recv fd' bytes => if fd' = fd then bytes else []
  | send _ _ => []

/-- The bytes that were written to the socket in this entry. -/
def Event.sent (fd : ℤ) : Event → List UInt8
  | recv _ _ => []
  | send fd' bytes => if fd' = fd then bytes else []

namespace State

/-- The bytes that `read` has returned so far. -/
def received (s : State) (fd : ℤ) : List UInt8 := s.log.flatMap (Event.received fd)

/-- The bytes that `write` has accepted so far. -/
def sent (s : State) (fd : ℤ) : List UInt8 := s.log.flatMap (Event.sent fd)

end State

/-- When `io_cb` makes a `write` that accepts something, the bytes that were accepted before
and those in the buffer are all that was read. -/
def Unbroken (s : State) : Input → Prop
  | .acceptCb _ => True
  | .ioCb c => ∀ x b, s.watchers c.watcher = some x → s.bufs x.data = some b →
      c.revents.evError = false → c.revents.evRead = false → c.revents.evWrite = true →
      0 < b.len → c.write.getD 0 ≠ 0 →
      (s.received x.fd).length = (s.sent x.fd).length + b.len

/-- The callbacks that meet the condition. -/
def UnbrokenNext (s t : State) : Prop := ∃ i, Step i s t ∧ Unbroken s i

/-- What was read from a socket is what was written to it, then what was lost, then what is in
the buffer. -/
structure Intact (s : State) : Prop where
  pending : ∀ w x b array, s.watchers w = some x → s.bufs x.data = some b →
    s.arrays b.data = some array →
    ∃ gap, s.received x.fd = s.sent x.fd ++ gap ++ array.take b.len
  /-- The buffer of a client that waits for a message is empty. -/
  empty : ∀ w x b, s.watchers w = some x → s.bufs x.data = some b → x.events = .evRead → b.len = 0
  in_order : ∀ fd, s.sent fd <+: s.received fd
  fresh : ∀ fd, fd ∉ s.sockets → s.received fd = [] ∧ s.sent fd = []

/-! ## The log -/

variable {s t : State} {fd : ℤ} {bytes : List UInt8}

lemma received_recv (h : t.log = s.log ++ [.recv fd bytes]) :
    t.received fd = s.received fd ++ bytes ∧ t.sent fd = s.sent fd := by
  constructor
  · simp [State.received, h, Event.received]
  · simp [State.sent, h, Event.sent]

lemma sent_send (h : t.log = s.log ++ [.send fd bytes]) :
    t.received fd = s.received fd ∧ t.sent fd = s.sent fd ++ bytes := by
  constructor
  · simp [State.received, h, Event.received]
  · simp [State.sent, h, Event.sent]

/-- An entry is about one socket. -/
lemma log_of_ne {fd' : ℤ} (hne : fd' ≠ fd)
    (h : t.log = s.log ++ [.recv fd bytes] ∨ t.log = s.log ++ [.send fd bytes]) :
    t.received fd' = s.received fd' ∧ t.sent fd' = s.sent fd' := by
  rcases h with h | h
  · constructor
    · simp [State.received, h, Event.received, hne.symm]
    · simp [State.sent, h, Event.sent]
  · constructor
    · simp [State.received, h, Event.received]
    · simp [State.sent, h, Event.sent, hne.symm]

lemma log_congr (h : t.log = s.log) (fd : ℤ) :
    t.received fd = s.received fd ∧ t.sent fd = s.sent fd := by
  rw [State.received, State.sent, h]
  exact ⟨rfl, rfl⟩

lemma intact_start : Intact State.start := by
  refine ⟨fun w x b array hx => ?_, fun w x b hx => ?_, fun fd => ?_, fun fd _ => ⟨rfl, rfl⟩⟩
  · cases hx
  · cases hx
  · exact List.nil_prefix

/-! ## One callback -/

/-- The log, and the clients that were there before, stay as they are. -/
lemma Intact.of_sub (h : Intact s) (hlog : t.log = s.log)
    (hsockets : s.sockets ⊆ t.sockets)
    (hclient : ∀ w x b array, t.watchers w = some x → t.bufs x.data = some b →
      t.arrays b.data = some array →
      (∃ x', s.watchers w = some x' ∧ x'.fd = x.fd ∧ s.bufs x'.data = some b ∧
        s.arrays b.data = some array) ∨ (x.fd ∉ s.sockets ∧ b.len = 0))
    (hempty : ∀ w x b, t.watchers w = some x → t.bufs x.data = some b →
      (s.watchers w = some x ∧ s.bufs x.data = some b) ∨ b.len = 0) : Intact t := by
  have hfd := log_congr hlog
  constructor
  · intro w x b array hx hb harray
    rw [(hfd x.fd).1, (hfd x.fd).2]
    rcases hclient w x b array hx hb harray with ⟨x', hx', heq, hb', harray'⟩ | ⟨hnew, hlen⟩
    · rw [← heq]
      exact h.pending w x' b array hx' hb' harray'
    · obtain ⟨h1, h2⟩ := h.fresh x.fd hnew
      refine ⟨[], ?_⟩
      rw [h1, h2, hlen, List.take_zero]
      rfl
  · intro w x b hx hb hev
    rcases hempty w x b hx hb with ⟨hx, hb⟩ | hlen
    · exact h.empty w x b hx hb hev
    · exact hlen
  · intro fd
    rw [(hfd fd).1, (hfd fd).2]
    exact h.in_order fd
  · intro fd hfd'
    rw [(hfd fd).1, (hfd fd).2]
    exact h.fresh fd fun hmem => hfd' (hsockets hmem)

/-- A callback of watcher `w` has changed the buffer, and added an entry to the log. -/
lemma Intact.of_exchange (hs : Inv s) (h : Intact s) {w : ℕ} {x : EvIo} {b : IoBuf}
    {array : List UInt8} {len : ℕ} {events : Interest} (hx : s.watchers w = some x)
    (hb : s.bufs x.data = some b)
    (hwatchers : t.watchers = Function.update s.watchers w (some { x with events := events }))
    (hbufs : t.bufs = Function.update s.bufs x.data (some { b with len := len }))
    (harrays : t.arrays = Function.update s.arrays b.data (some array))
    (hsockets : t.sockets = s.sockets)
    (hlog : t.log = s.log ++ [.recv x.fd bytes] ∨ t.log = s.log ++ [.send x.fd bytes])
    (hpending : ∃ gap, t.received x.fd = t.sent x.fd ++ gap ++ array.take len)
    (hempty : events = .evRead → len = 0) : Intact t := by
  -- the client of the watcher, and those of others
  have hclient : ∀ w' x' b', t.watchers w' = some x' → t.bufs x'.data = some b' →
      (x' = { x with events := events } ∧ b' = { b with len := len }) ∨
      (s.watchers w' = some x' ∧ s.bufs x'.data = some b' ∧ x'.fd ≠ x.fd ∧
        x'.data ≠ x.data) := by
    intro w' x' b' hx' hb'
    rw [hwatchers] at hx'
    rw [hbufs] at hb'
    rcases update_some_eq_some.1 hx' with ⟨-, rfl⟩ | ⟨hne, hx'⟩
    · rw [Function.update_self, Option.some.injEq] at hb'
      exact Or.inl ⟨rfl, hb'.symm⟩
    · have hdata : x'.data ≠ x.data := fun heq => hne (hs.buf_inj w' w x' x hx' hx heq)
      rw [Function.update_of_ne hdata] at hb'
      exact Or.inr ⟨hx', hb', fun heq => hne (hs.fd_inj w' w x' x hx' hx heq), hdata⟩
  constructor
  · intro w' x' b' array' hx' hb' harray'
    rw [harrays] at harray'
    rcases hclient w' x' b' hx' hb' with ⟨rfl, rfl⟩ | ⟨hx', hb', hfd, haddr⟩
    · rw [Function.update_self, Option.some.injEq] at harray'
      subst harray'
      exact hpending
    · have hdata : b'.data ≠ b.data :=
        fun heq => haddr (hs.array_inj x'.data x.data b' b hb' hb heq)
      rw [Function.update_of_ne hdata] at harray'
      rw [(log_of_ne hfd hlog).1, (log_of_ne hfd hlog).2]
      exact h.pending w' x' b' array' hx' hb' harray'
  · intro w' x' b' hx' hb' hev
    rcases hclient w' x' b' hx' hb' with ⟨rfl, rfl⟩ | ⟨hx', hb', -, -⟩
    · exact hempty hev
    · exact h.empty w' x' b' hx' hb' hev
  · intro fd
    by_cases hfd : fd = x.fd
    · subst hfd
      obtain ⟨gap, hgap⟩ := hpending
      rw [hgap, List.append_assoc]
      exact List.prefix_append _ _
    · rw [(log_of_ne hfd hlog).1, (log_of_ne hfd hlog).2]
      exact h.in_order fd
  · intro fd hfd
    rw [hsockets] at hfd
    have hne : fd ≠ x.fd := by
      rintro rfl
      exact hfd (hs.sockets w x hx)
    rw [(log_of_ne hne hlog).1, (log_of_ne hne hlog).2]
    exact h.fresh fd hfd

lemma Intact.of_same (h : Intact s) (hlog : t.log = s.log) (hsockets : s.sockets ⊆ t.sockets)
    (hwatchers : ∀ w x, t.watchers w = some x → s.watchers w = some x)
    (hbufs : ∀ a b, t.bufs a = some b → s.bufs a = some b)
    (harrays : ∀ d array, t.arrays d = some array → s.arrays d = some array) : Intact t :=
  h.of_sub hlog hsockets
    (fun w x b array hx hb harray =>
      Or.inl ⟨x, hwatchers w x hx, rfl, hbufs _ b hb, harrays _ array harray⟩)
    fun w x b hx hb => Or.inl ⟨hwatchers w x hx, hbufs _ b hb⟩

lemma Intact.register (hs : Inv s) (h : Intact s) {c : AcceptCall} (hfd : fd ∉ s.sockets)
    (hbuf : s.bufs c.buf = none) (harray : s.arrays c.data = none) {blank : Finset ℕ} :
    Intact (State.register { s with blank := blank, sockets := insert fd s.sockets } c fd) := by
  refine h.of_sub rfl (Finset.subset_insert _ _) ?_ ?_
  · intro w x b array hx hb ha
    rcases update_some_eq_some.1 hx with ⟨-, rfl⟩ | ⟨-, hx⟩
    · rcases update_some_eq_some.1 hb with ⟨-, rfl⟩ | ⟨hne, -⟩
      · exact Or.inr ⟨hfd, rfl⟩
      · exact absurd rfl hne
    · rcases update_some_eq_some.1 hb with ⟨heq, -⟩ | ⟨-, hb⟩
      · exact absurd heq (hs.data_ne hx hbuf)
      · rcases update_some_eq_some.1 ha with ⟨heq, -⟩ | ⟨-, ha⟩
        · exact absurd heq (hs.array_ne hb harray)
        · exact Or.inl ⟨x, hx, rfl, hb, ha⟩
  · intro w x b hx hb
    rcases update_some_eq_some.1 hb with ⟨-, rfl⟩ | ⟨hne, hb⟩
    · exact Or.inr rfl
    · rcases update_some_eq_some.1 hx with ⟨-, rfl⟩ | ⟨-, hx⟩
      · exact absurd rfl hne
      · exact Or.inl ⟨hx, hb⟩

/-- There is nothing to write. -/
lemma Intact.idle (h : Intact s) {w : ℕ} {x : EvIo} {b : IoBuf}
    (hx : s.watchers w = some x) (hb : s.bufs x.data = some b) (hlen : b.len = 0)
    (events : Interest) : Intact (s.watch w x events) := by
  refine h.of_sub rfl (Finset.Subset.refl _) ?_ ?_
  · intro w' x' b' array hx' hb' harray
    rcases update_some_eq_some.1 hx' with ⟨rfl, rfl⟩ | ⟨-, hx'⟩
    · exact Or.inl ⟨x, hx, rfl, hb', harray⟩
    · exact Or.inl ⟨x', hx', rfl, hb', harray⟩
  · intro w' x' b' hx' hb'
    rcases update_some_eq_some.1 hx' with ⟨-, rfl⟩ | ⟨-, hx'⟩
    · rw [Option.some.inj (hb'.symm.trans hb)]
      exact Or.inr hlen
    · exact Or.inl ⟨hx', hb'⟩

/-- What is in the buffer, and how much of it is accepted. -/
lemma take_take_append_drop (array : List UInt8) (len n : ℕ) :
    (array.take len).take n ++ (array.take len).drop n = array.take len :=
  List.take_append_drop n (array.take len)

/-- A callback that meets the condition keeps the order of the bytes. -/
lemma Step.intact {i : Input} (hst : Step i s t) (hs : Inv s) (h : Intact s)
    (hun : Unbroken s i) : Intact t := by
  have hok := hst.1
  cases hst.outcome with
  | refuse | quiet | error =>
    exact h.of_same rfl (Finset.Subset.refl _) (fun _ _ h => h) (fun _ _ h => h) fun _ _ h => h
  | abandon =>
    exact h.of_same rfl (Finset.subset_insert _ _) (fun _ _ h => h) (fun _ _ h => h)
      fun _ _ h => h
  | register _ _ hnew _ =>
    obtain ⟨-, -, hbuf, harray, -⟩ := hok
    exact h.register hs hnew hbuf harray
  | release =>
    exact h.of_same rfl (Finset.Subset.refl _) (fun _ _ h => (update_none_eq_some.1 h).2)
      (fun _ _ h => (update_none_eq_some.1 h).2) fun _ _ h => (update_none_eq_some.1 h).2
  | idle _ _ hx hb hlen => exact h.idle hx hb hlen _
  | @recv c x b bytes array _ _ _ _ hx hb harray _ hreg =>
    obtain ⟨gap, hgap⟩ := h.pending _ x b array hx hb harray
    rw [h.empty _ x b hx hb hreg, List.take_zero, List.append_nil] at hgap
    refine h.of_exchange hs hx hb rfl rfl rfl rfl (Or.inl rfl) ⟨gap, ?_⟩ (fun hf => by cases hf)
    rw [(received_recv rfl).1, (received_recv rfl).2, hgap, List.take_left']
    rfl
  | @send c x b array herr hr hw hx hb hpos harray hlen =>
    obtain ⟨gap, hgap⟩ := h.pending _ x b array hx hb harray
    refine h.of_exchange hs hx hb rfl rfl rfl rfl (Or.inr rfl) ?_ (fun _ => rfl)
    rw [(sent_send rfl).1, (sent_send rfl).2, List.take_zero]
    by_cases hn : c.write.getD 0 = 0
    · -- nothing is accepted, and the buffer is lost
      refine ⟨gap ++ array.take b.len, ?_⟩
      rw [hn, List.take_zero, List.append_nil, List.append_nil, hgap, List.append_assoc]
    · -- nothing was lost before, and the rest of the buffer is
      have hlength := hun x b hx hb herr hr hw hpos hn
      have hnil : gap = [] := by
        rw [hgap, List.length_append, List.length_append, List.length_take, min_eq_left hlen]
          at hlength
        exact List.length_eq_zero_iff.1 (by omega)
      refine ⟨(array.take b.len).drop (c.write.getD 0), ?_⟩
      rw [hgap, hnil, List.append_nil, List.append_nil, List.append_assoc, take_take_append_drop]

/-! ## Runs -/

/-- The last entry of the log of `fd` is behind a gap: bytes were read and not written, and
then later ones were written. -/
def Skips (s t : State) (fd : ℤ) : Prop :=
  ∃ gap bytes, gap ≠ [] ∧ bytes ≠ [] ∧ t.sent fd = s.sent fd ++ bytes ∧
    s.sent fd ++ gap ++ bytes <+: t.received fd

/-- A callback that does not meet the condition puts bytes behind a gap. -/
lemma Step.exists_skips {i : Input} (hst : Step i s t) (h : Intact s) (hun : ¬ Unbroken s i) :
    ∃ fd, Skips s t fd := by
  cases i with
  | acceptCb c => exact absurd trivial hun
  | ioCb c =>
    rw [Unbroken] at hun
    push Not at hun
    obtain ⟨x, b, hx, hb, herr, hr, hw, hpos, hn, hlength⟩ := hun
    cases hst.outcome with
    | error herr' => exact absurd (herr'.symm.trans herr) (by decide)
    | release _ hr' => exact absurd (hr'.symm.trans hr) (by decide)
    | recv _ hr' => exact absurd (hr'.symm.trans hr) (by decide)
    | quiet _ hor =>
      rcases hor with ⟨hr', -⟩ | ⟨-, hw'⟩
      · exact absurd (hr'.symm.trans hr) (by decide)
      · exact absurd (hw'.symm.trans hw) (by decide)
    | idle _ _ hx' hb' hlen =>
      obtain rfl := Option.some.inj (hx'.symm.trans hx)
      obtain rfl := Option.some.inj (hb'.symm.trans hb)
      omega
    | @send _ x' b' array _ _ _ hx' hb' _ harray hlen =>
      obtain rfl := Option.some.inj (hx'.symm.trans hx)
      obtain rfl := Option.some.inj (hb'.symm.trans hb)
      obtain ⟨gap, hgap⟩ := h.pending _ _ _ array hx' hb' harray
      refine ⟨_, gap, (array.take b'.len).take (c.write.getD 0), ?_, ?_, (sent_send rfl).2, ?_⟩
      · rintro rfl
        rw [hgap, List.append_nil, List.length_append, List.length_take, min_eq_left hlen]
          at hlength
        exact hlength rfl
      · rw [← List.length_pos_iff, List.length_take, List.length_take]
        omega
      · rw [(sent_send rfl).1, hgap]
        refine (List.prefix_append_right_inj _).2 ?_
        exact List.take_prefix _ _

/-- The server when its loop begins. -/
def Init (s : State) : Prop := s = State.start

/-- **When the libev echo server loses no bytes.**  In a run in which every `write` that
accepts something comes when everything that was read before is accepted or in the buffer,
what was written to a socket is a beginning of what was read from it; and a further callback
that does not meet the condition puts bytes behind a gap. -/
theorem inOrder_of_unbroken (h : Reachable Init UnbrokenNext s) :
    (∀ fd, s.sent fd <+: s.received fd) ∧
      ∀ i t, Step i s t → ¬ Unbroken s i → ∃ fd, Skips s t fd := by
  have hinv : Inv s ∧ Intact s := by
    refine Reachable.invariant (I := fun s => Inv s ∧ Intact s) ?_ ?_ h
    · rintro s rfl
      exact ⟨inv_start, intact_start⟩
    · rintro s t - ⟨hs, h⟩ ⟨i, hst, hun⟩
      exact ⟨hst.inv hs, hst.intact hs h hun⟩
  exact ⟨hinv.2.in_order, fun i t hst hun => hst.exists_skips hinv.2 hun⟩

/-- Two bytes are read, one of them is written, and then the client sends nothing more. -/
theorem inOrder_oneByte : ∃ s, Reachable Init UnbrokenNext s ∧
    s.received 5 = [104, 105] ∧ s.sent 5 = [104] ∧ s.sent 5 <+: s.received 5 := by
  obtain ⟨s₁, h₁, hs₁, -, -, hlog₁⟩ := exists_connect 5 (by decide)
  obtain ⟨s₂, h₂, hs₂, -, -, hlog₂⟩ := hs₁.exists_message List.length_replicate
    [104, 105] (by decide) (by decide)
  obtain ⟨s₃, h₃, -, -, -, hlog₃⟩ := hs₂.exists_answer (by decide)
    (by rw [List.length_append]; exact Nat.le_add_right _ _) 1
  rw [hlog₁, List.nil_append] at hlog₂
  have hlog : s₃.log = [.recv 5 [104, 105], .send 5 [104]] := by
    rw [hlog₃, hlog₂]
    rfl
  have hun₂ : Unbroken s₁ (message 0 [104, 105]) := fun x b _ _ _ hr => by cases hr
  have hun₃ : Unbroken s₂ (answer 0 1) := by
    intro x b hx hb _ _ _ _ _
    obtain rfl := Option.some.inj (hx.symm.trans hs₂.watcher)
    obtain rfl := Option.some.inj (hb.symm.trans hs₂.buf)
    rw [State.received, State.sent, hlog₂]
    rfl
  have h₀ : Reachable Init UnbrokenNext State.start := .of_init rfl
  have hreach : Reachable Init UnbrokenNext s₃ :=
    ((h₀.tail ⟨_, h₁, trivial⟩).tail ⟨_, h₂, hun₂⟩).tail ⟨_, h₃, hun₃⟩
  refine ⟨s₃, hreach, ?_, ?_, (inOrder_of_unbroken hreach).1 5⟩
  · rw [State.received, hlog]
    rfl
  · rw [State.sent, hlog]
    rfl

/-- Two bytes are read, one of them is written, and then a third byte is read and written. -/
theorem lostByte : ∃ l s, Trace Step State.start l s ∧ s.received 5 = [104, 105, 33] ∧
    s.sent 5 = [104, 33] ∧ ¬ s.sent 5 <+: s.received 5 := by
  obtain ⟨s₁, h₁, hs₁, -, -, hlog₁⟩ := exists_connect 5 (by decide)
  obtain ⟨s₂, h₂, hs₂, -, -, hlog₂⟩ := hs₁.exists_message List.length_replicate
    [104, 105] (by decide) (by decide)
  obtain ⟨s₃, h₃, hs₃, -, -, hlog₃⟩ := hs₂.exists_answer (by decide)
    (by rw [List.length_append]; exact Nat.le_add_right _ _) 1
  obtain ⟨s₄, h₄, hs₄, -, -, hlog₄⟩ := hs₃.exists_message List.length_replicate
    [33] (by decide) (by decide)
  obtain ⟨s₅, h₅, -, -, -, hlog₅⟩ := hs₄.exists_answer (by decide)
    (by rw [List.length_append]; exact Nat.le_add_right _ _) 1
  have hlog : s₅.log = [.recv 5 [104, 105], .send 5 [104], .recv 5 [33], .send 5 [33]] := by
    rw [hlog₅, hlog₄, hlog₃, hlog₂, hlog₁]
    rfl
  have hreceived : s₅.received 5 = [104, 105, 33] := by
    rw [State.received, hlog]
    rfl
  have hsent : s₅.sent 5 = [104, 33] := by
    rw [State.sent, hlog]
    rfl
  refine ⟨_, s₅, .cons h₁ (.cons h₂ (.cons h₃ (.cons h₄ (.cons h₅ (.nil _))))), hreceived, hsent,
    ?_⟩
  rw [hreceived, hsent]
  decide

end CppExample.Libev
