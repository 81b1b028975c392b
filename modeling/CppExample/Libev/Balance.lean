/-
# What the libev echo server leaks

Every client that is served has one socket, one watcher, one buffer and one array.
`accept_cb` allocates the watcher before it knows whether there is a client, and does not free
it when it returns early; `io_cb` frees everything at the end of file but does not close the
socket, and frees nothing when it is called with `EV_ERROR`.  What is lost in this way is lost
for good, so that the books balance after a run if and only if none of it has happened.
-/
import CppExample.Libev.EchoServer

namespace CppExample.Libev
open Lib

/-- `total_clients` is the number of open sockets and of started watchers, and every object
belongs to a started watcher. -/
structure Balanced (s : State) : Prop where
  sockets : s.totalClients = s.sockets.card
  started : s.totalClients = s.started.card
  watchers : ∀ w, (w ∈ s.blank ∨ s.watchers w ≠ none) → w ∈ s.started
  bufs : ∀ a, s.bufs a ≠ none → ∃! w, w ∈ s.started ∧ ∃ x, s.watchers w = some x ∧ x.data = a
  arrays : ∀ d, s.arrays d ≠ none → ∃! a, ∃ b, s.bufs a = some b ∧ b.data = d

/-- A callback that leaks nothing: `accept_cb` without `EV_ERROR`, for which `accept` and
`set_nonblocking` succeed, or `io_cb` without `EV_ERROR` and not at the end of file. -/
def Input.Clean : Input → Prop
  | acceptCb c => c.revents.evError = false ∧ c.accept ≠ none ∧ c.nonblocking = true
  | ioCb c => c.revents.evError = false ∧ (c.revents.evRead = true → c.read ≠ some [])

/-! ## Runs that leak nothing -/

/-- There is nothing but what the started watchers use. -/
structure Full (s : State) : Prop where
  total : s.totalClients = s.started.card
  sockets : s.sockets.card = s.started.card
  blank : s.blank = ∅
  watchers : ∀ w x, s.watchers w = some x → w ∈ s.started
  bufs : ∀ a b, s.bufs a = some b → ∃ w x, s.watchers w = some x ∧ x.data = a
  arrays : ∀ d array, s.arrays d = some array → ∃ a b, s.bufs a = some b ∧ b.data = d

lemma full_start : Full State.start := by
  refine ⟨rfl, rfl, rfl, fun w x h => ?_, fun a b h => ?_, fun d array h => ?_⟩
  · cases h
  · cases h
  · cases h

lemma Full.balanced {s : State} (h : Full s) (hs : Inv s) : Balanced s := by
  constructor
  · rw [h.total, h.sockets]
  · exact h.total
  · intro w hw
    rcases hw with hw | hw
    · rw [h.blank] at hw
      exact absurd hw (Finset.notMem_empty w)
    · obtain ⟨x, hx⟩ := Option.ne_none_iff_exists'.1 hw
      exact h.watchers w x hx
  · intro a ha
    obtain ⟨b, hb⟩ := Option.ne_none_iff_exists'.1 ha
    obtain ⟨w, x, hx, rfl⟩ := h.bufs a b hb
    refine ⟨w, ⟨h.watchers w x hx, x, hx, rfl⟩, ?_⟩
    rintro w' ⟨-, x', hx', heq⟩
    exact hs.buf_inj w' w x' x hx' hx heq
  · intro d hd
    obtain ⟨array, harray⟩ := Option.ne_none_iff_exists'.1 hd
    obtain ⟨a, b, hb, rfl⟩ := h.arrays d array harray
    refine ⟨a, ⟨b, hb, rfl⟩, ?_⟩
    rintro a' ⟨b', hb', heq⟩
    exact hs.array_inj a' a b' b hb' hb heq

lemma Full.register {s : State} (h : Full s) (hs : Inv s) {c : AcceptCall} {fd : ℤ}
    (hfd : fd ∉ s.sockets) (hw : s.watchers c.ioWatcher = none) (hbuf : s.bufs c.buf = none) :
    Full (State.register
      { s with blank := insert c.ioWatcher s.blank, sockets := insert fd s.sockets } c fd) := by
  have hnew := hs.notMem_started hw
  constructor
  · simp only [State.register]
    rw [Finset.card_insert_of_notMem hnew, h.total]
    push_cast
    rfl
  · simp only [State.register]
    rw [Finset.card_insert_of_notMem hnew, Finset.card_insert_of_notMem hfd, h.sockets]
  · simp [State.register, h.blank]
  · intro w x hx
    rcases update_some_eq_some.1 hx with ⟨rfl, -⟩ | ⟨-, hx⟩
    · exact Finset.mem_insert_self _ _
    · exact Finset.mem_insert_of_mem (h.watchers w x hx)
  · intro a b hb
    rcases update_some_eq_some.1 hb with ⟨rfl, -⟩ | ⟨-, hb⟩
    · exact ⟨c.ioWatcher, _, Function.update_self _ _ _, rfl⟩
    · obtain ⟨w, x, hx, hdata⟩ := h.bufs a b hb
      exact ⟨w, x, update_eq_some_of_ne (ne_of_free hx hw) hx, hdata⟩
  · intro d array hd
    rcases update_some_eq_some.1 hd with ⟨rfl, -⟩ | ⟨-, hd⟩
    · exact ⟨c.buf, _, Function.update_self _ _ _, rfl⟩
    · obtain ⟨a, b, hb, hdata⟩ := h.arrays d array hd
      exact ⟨a, b, update_eq_some_of_ne (ne_of_free hb hbuf) hb, hdata⟩

lemma Full.setBuf {s : State} (h : Full s) {a : ℕ} {b : IoBuf} (hb : s.bufs a = some b)
    {bytes : List UInt8} {len : ℕ} {log : List Event} :
    Full { s.setBuf a b bytes len with log := log } := by
  refine ⟨h.total, h.sockets, h.blank, h.watchers, fun a' b' hb' => ?_, fun d array hd => ?_⟩
  · rcases update_some_eq_some.1 hb' with ⟨rfl, -⟩ | ⟨-, hb'⟩
    · exact h.bufs _ b hb
    · exact h.bufs a' b' hb'
  · rcases update_some_eq_some.1 hd with ⟨rfl, -⟩ | ⟨hne, hd⟩
    · exact ⟨a, _, Function.update_self _ _ _, rfl⟩
    · obtain ⟨a', b', hb', hdata⟩ := h.arrays d array hd
      refine ⟨a', b', update_eq_some_of_ne ?_ hb', hdata⟩
      rintro rfl
      rw [Option.some.inj (hb'.symm.trans hb)] at hdata
      exact hne hdata.symm

lemma Full.watch {s : State} (h : Full s) {w : ℕ} {x : EvIo} (hx : s.watchers w = some x)
    (events : Interest) : Full (s.watch w x events) := by
  have hstarted : insert w (s.started.erase w) = s.started :=
    Finset.insert_erase (h.watchers w x hx)
  constructor
  · simp only [State.watch, hstarted]
    exact h.total
  · simp only [State.watch, hstarted]
    exact h.sockets
  · exact h.blank
  · intro w' x' hx'
    simp only [State.watch, hstarted]
    rcases update_some_eq_some.1 hx' with ⟨rfl, -⟩ | ⟨-, hx'⟩
    · exact h.watchers _ x hx
    · exact h.watchers w' x' hx'
  · intro a b hb
    obtain ⟨w', x', hx', hdata⟩ := h.bufs a b hb
    by_cases heq : w' = w
    · subst heq
      rw [Option.some.inj (hx'.symm.trans hx)] at hdata
      exact ⟨w', _, Function.update_self _ _ _, hdata⟩
    · exact ⟨w', x', update_eq_some_of_ne heq hx', hdata⟩
  · exact h.arrays

lemma Step.full {i : Input} {s t : State} (hst : Step i s t) (hs : Inv s) (h : Full s)
    (hclean : i.Clean) : Full t := by
  have hok := hst.1
  cases hst.outcome with
  | refuse hor =>
    rcases hor with herr | ⟨-, hnone⟩
    · exact absurd (herr.symm.trans hclean.1) (by decide)
    · exact absurd hnone hclean.2.1
  | abandon _ _ _ hb => exact absurd (hb.symm.trans hclean.2.2) (by decide)
  | register _ _ hnew _ =>
    obtain ⟨-, ⟨-, hw⟩, hbuf, -, -⟩ := hok
    exact h.register hs hnew hw hbuf
  | error herr => exact absurd (herr.symm.trans hclean.1) (by decide)
  | quiet => exact h
  | release _ hr hread _ _ => exact absurd hread (hclean.2 hr)
  | recv _ _ _ _ hx hb _ _ _ => exact Full.watch (h.setBuf hb) hx _
  | send _ _ _ hx hb _ _ _ => exact Full.watch (h.setBuf hb) hx _
  | idle _ _ hx _ _ => exact h.watch hx _

/-! ## What is lost is lost for good -/

/-- A watcher is allocated that is not started. -/
def LostWatcher (s : State) (w : ℕ) : Prop :=
  (w ∈ s.blank ∨ s.watchers w ≠ none) ∧ w ∉ s.started

/-- A socket is open that no started watcher is for. -/
def LostSocket (s : State) (fd : ℤ) : Prop :=
  fd ∈ s.sockets ∧ ∀ w x, w ∈ s.started → s.watchers w = some x → x.fd ≠ fd

/-- Something is lost. -/
def Leaks (s : State) : Prop := (∃ w, LostWatcher s w) ∨ ∃ fd, LostSocket s fd

/-- A watcher that is called back stays started. -/
lemma mem_watch {s : State} {w w' : ℕ} (hw : w ∈ s.started) :
    w' ∈ insert w (s.started.erase w) ↔ w' ∈ s.started := by
  rw [Finset.insert_erase hw]

lemma LostWatcher.watch {s : State} {w₀ w : ℕ} (h : LostWatcher s w₀) (hw : w ∈ s.started)
    (x : EvIo) (events : Interest) : LostWatcher (s.watch w x events) w₀ := by
  have hne : w₀ ≠ w := by
    rintro rfl
    exact h.2 hw
  exact ⟨h.1.imp id (update_ne_none hne), fun hmem => h.2 ((mem_watch hw).1 hmem)⟩

lemma Step.lostWatcher {i : Input} {s t : State} (hst : Step i s t) {w : ℕ}
    (h : LostWatcher s w) : LostWatcher t w := by
  have hok := hst.1
  cases hst.outcome with
  | refuse | abandon => exact ⟨h.1.imp (Finset.mem_insert_of_mem) id, h.2⟩
  | @register c fd _ _ _ _ =>
    obtain ⟨-, ⟨hblank, hnone⟩, -⟩ := hok
    have hne : w ≠ c.ioWatcher := by
      rintro rfl
      rcases h.1 with hb | hx
      · exact hblank hb
      · exact hx hnone
    refine ⟨h.1.imp (fun hb => ?_) (update_ne_none hne), fun hmem => ?_⟩
    · exact Finset.mem_erase.2 ⟨hne, Finset.mem_insert_of_mem hb⟩
    · exact h.2 (Finset.mem_of_mem_insert_of_ne hmem hne)
  | error => exact ⟨h.1, fun hmem => h.2 (Finset.mem_of_mem_erase hmem)⟩
  | quiet => exact h
  | @release c x b _ _ _ _ _ =>
    have hne : w ≠ c.watcher := by
      rintro rfl
      exact h.2 hok.1
    exact ⟨h.1.imp id (update_ne_none hne), fun hmem => h.2 (Finset.mem_of_mem_erase hmem)⟩
  | recv | send => exact LostWatcher.watch ⟨h.1, h.2⟩ hok.1 _ _
  | idle => exact h.watch hok.1 _ _

lemma LostSocket.watch {s : State} {fd : ℤ} (h : LostSocket s fd) {w : ℕ} (hw : w ∈ s.started)
    {x : EvIo} (hx : s.watchers w = some x) (events : Interest) :
    LostSocket (s.watch w x events) fd := by
  refine ⟨h.1, fun w' x' hmem hx' => ?_⟩
  rcases update_some_eq_some.1 hx' with ⟨-, rfl⟩ | ⟨-, hx'⟩
  · exact h.2 w x hw hx
  · exact h.2 w' x' ((mem_watch hw).1 hmem) hx'

lemma Step.lostSocket {i : Input} {s t : State} (hst : Step i s t) {fd : ℤ}
    (h : LostSocket s fd) : LostSocket t fd := by
  have hok := hst.1
  cases hst.outcome with
  | refuse | quiet => exact h
  | abandon => exact ⟨Finset.mem_insert_of_mem h.1, h.2⟩
  | register _ _ hnew _ =>
    refine ⟨Finset.mem_insert_of_mem h.1, fun w x hmem hx => ?_⟩
    rcases update_some_eq_some.1 hx with ⟨-, rfl⟩ | ⟨hne, hx⟩
    · -- the new socket was not open before
      rintro rfl
      exact hnew h.1
    · exact h.2 w x (Finset.mem_of_mem_insert_of_ne hmem hne) hx
  | error => exact ⟨h.1, fun w x hmem hx => h.2 w x (Finset.mem_of_mem_erase hmem) hx⟩
  | release =>
    exact ⟨h.1, fun w x hmem hx =>
      h.2 w x (Finset.mem_of_mem_erase hmem) (update_none_eq_some.1 hx).2⟩
  | recv _ _ _ _ hx | send _ _ _ hx => exact LostSocket.watch ⟨h.1, h.2⟩ hok.1 hx _
  | idle _ _ hx _ _ => exact h.watch hok.1 hx _

lemma Step.leaks {i : Input} {s t : State} (hst : Step i s t) (h : Leaks s) : Leaks t :=
  h.imp (fun ⟨w, hw⟩ => ⟨w, hst.lostWatcher hw⟩) fun ⟨fd, hfd⟩ => ⟨fd, hst.lostSocket hfd⟩

/-- A callback that is not clean loses something. -/
lemma Step.leaks_of_not_clean {i : Input} {s t : State} (hst : Step i s t) (hs : Inv s)
    (hclean : ¬ i.Clean) : Leaks t := by
  have hok := hst.1
  cases hst.outcome with
  | refuse | abandon =>
    exact Or.inl ⟨_, Or.inl (Finset.mem_insert_self _ _), hs.notMem_started hok.2.1.2⟩
  | register h hfd _ hb => exact absurd ⟨h, by rw [hfd]; exact Option.some_ne_none _, hb⟩ hclean
  | error =>
    obtain ⟨x, hx⟩ := hs.started _ hok.1
    refine Or.inl ⟨_, Or.inr ?_, Finset.notMem_erase _ _⟩
    rw [hx]
    exact Option.some_ne_none x
  | quiet h hr =>
    refine absurd ⟨h, fun hread => ?_⟩ hclean
    rcases hr with ⟨-, hnone⟩ | ⟨hf, -⟩
    · rw [hnone]
      exact Option.some_ne_none [] ∘ Eq.symm
    · exact absurd (hf.symm.trans hread) (by decide)
  | @release c x b _ _ _ hx _ =>
    refine Or.inr ⟨x.fd, hs.sockets _ x hx, fun w x' hmem hx' hfd => ?_⟩
    obtain ⟨hne, hx'⟩ := update_none_eq_some.1 hx'
    exact hne (hs.fd_inj w c.watcher x' x hx' hx hfd)
  | recv h _ hread hne =>
    refine absurd ⟨h, fun _ => ?_⟩ hclean
    rw [hread]
    exact fun heq => hne (Option.some.inj heq)
  | send h hr | idle h hr =>
    refine absurd ⟨h, fun hread => ?_⟩ hclean
    rw [hr] at hread
    cases hread

/-- When something is lost, the books do not balance. -/
lemma Leaks.not_balanced {s : State} (h : Leaks s) (hs : Inv s) : ¬ Balanced s := by
  intro hb
  rcases h with ⟨w, hw, hnot⟩ | ⟨fd, hfd, hnone⟩
  · exact hnot (hb.watchers w hw)
  · -- the started watchers are for different sockets, and none is for the lost one
    have hlt : s.started.card ≤ (s.sockets.erase fd).card := by
      refine Finset.card_le_card_of_injOn (fun w => ((s.watchers w).map EvIo.fd).getD 0) ?_ ?_
      · intro w hw
        obtain ⟨x, hx⟩ := hs.started w hw
        simp only [hx, Option.map_some, Option.getD_some, Finset.coe_erase]
        exact ⟨hs.sockets w x hx, hnone w x hw hx⟩
      · intro w hw w' hw' heq
        obtain ⟨x, hx⟩ := hs.started w hw
        obtain ⟨x', hx'⟩ := hs.started w' hw'
        simp only [hx, hx', Option.map_some, Option.getD_some] at heq
        exact hs.fd_inj w w' x x' hx hx' heq
    rw [Finset.card_erase_of_mem hfd] at hlt
    have hcard : s.sockets.card = s.started.card := by
      exact_mod_cast hb.sockets.symm.trans hb.started
    have hpos := Finset.card_pos.2 ⟨fd, hfd⟩
    omega

/-! ## Runs -/

lemma Trace.inv {l : List Input} {s t : State} (h : Trace Step s l t) (hs : Inv s) : Inv t :=
  h.invariant (fun _ _ _ hs hst => hst.inv hs) hs

lemma Trace.leaks {l : List Input} {s t : State} (h : Trace Step s l t) (hs : Leaks s) :
    Leaks t :=
  h.invariant (fun _ _ _ hs hst => hst.leaks hs) hs

/-- A run keeps the books balanced, or loses something when a callback is not clean. -/
lemma full_or_leaks {l : List Input} {s t : State} (h : Trace Step s l t) (hs : Inv s)
    (hfull : Full s) : ((∀ i ∈ l, i.Clean) → Full t) ∧ ((∃ i ∈ l, ¬ i.Clean) → Leaks t) := by
  induction h with
  | nil s => exact ⟨fun _ => hfull, fun ⟨i, hi, _⟩ => absurd hi List.not_mem_nil⟩
  | @cons s u t i l hst h ih =>
    by_cases hclean : i.Clean
    · obtain ⟨h1, h2⟩ := ih (hst.inv hs) (hst.full hs hfull hclean)
      refine ⟨fun hall => h1 fun j hj => hall j (List.mem_cons_of_mem i hj), ?_⟩
      rintro ⟨j, hj, hnot⟩
      rcases List.mem_cons.1 hj with rfl | hj
      · exact absurd hclean hnot
      · exact h2 ⟨j, hj, hnot⟩
    · refine ⟨fun hall => absurd (hall i List.mem_cons_self) hclean, fun _ => ?_⟩
      exact Trace.leaks h (hst.leaks_of_not_clean hs hclean)

/-- **When the libev echo server is balanced.**  After every run, the counter is the number of
open sockets and of started watchers, and every object belongs to one started watcher, if and
only if no callback of the run came with `EV_ERROR`, no `accept` or `set_nonblocking` failed
and no client has closed its connection. -/
theorem balanced_iff_clean {l : List Input} {s : State} (h : Trace Step State.start l s) :
    Balanced s ↔ ∀ i ∈ l, i.Clean := by
  obtain ⟨hfull, hleaks⟩ := full_or_leaks h inv_start full_start
  have hs := Trace.inv h inv_start
  constructor
  · intro hb
    by_contra hnot
    push Not at hnot
    exact (hleaks hnot).not_balanced hs hb
  · exact fun hall => (hfull hall).balanced hs

/-- The client of watcher `w` closes its connection. -/
def goodbye (w : ℕ) : Input := .ioCb ⟨w, ⟨false, true, false⟩, some [], none⟩

/-- A client connects, and two bytes are sent back to it. -/
theorem balanced_answered : ∃ s, Trace Step State.start
    [connect 5, message 0 [104, 105], answer 0 2] s ∧ Balanced s ∧ s.totalClients = 1 := by
  obtain ⟨s₁, h₁, hs₁, htotal₁, -⟩ := exists_connect 5 (by decide)
  obtain ⟨s₂, h₂, hs₂, htotal₂, -⟩ := hs₁.exists_message List.length_replicate
    [104, 105] (by decide) (by decide)
  obtain ⟨s₃, h₃, -, htotal₃, -⟩ := hs₂.exists_answer (by decide)
    (by rw [List.length_append]; exact Nat.le_add_right _ _) 2
  have hrun := Trace.cons h₁ (.cons h₂ (.cons h₃ (.nil _)))
  refine ⟨s₃, hrun, (balanced_iff_clean hrun).2 ?_, htotal₃.trans (htotal₂.trans htotal₁)⟩
  rintro i hi
  simp only [List.mem_cons, List.not_mem_nil, or_false] at hi
  rcases hi with rfl | rfl | rfl
  · exact ⟨rfl, by decide, rfl⟩
  · exact ⟨rfl, fun _ => by decide⟩
  · exact ⟨rfl, fun h => by cases h⟩

/-- The client closes its connection: nobody is counted, and its socket is still open. -/
theorem not_balanced_goodbye : ∃ s, Trace Step State.start [connect 5, goodbye 0] s ∧
    s.totalClients = 0 ∧ s.sockets = {5} ∧ ¬ Balanced s := by
  obtain ⟨s, h, hs, htotal, hsockets, -⟩ := exists_connect 5 (by decide)
  have hok : (goodbye 0).Ok s := by
    refine ⟨hs.started, fun bytes hb => ?_, fun x hx _ => ?_⟩
    · cases hb
      exact Nat.zero_le _
    · obtain rfl := Option.some.inj (hx.symm.trans hs.watcher)
      exact ⟨fun _ => rfl, fun hw => by cases hw⟩
  have hst : Step (goodbye 0) s (s.release 0 ⟨5, .evRead, 0⟩ ⟨0, 0⟩) :=
    ⟨hok, Serves.handle (c := ⟨0, _, _, _⟩) hs rfl⟩
  have htotal' : (s.release 0 ⟨5, .evRead, 0⟩ ⟨0, 0⟩).totalClients = 0 := by
    rw [State.release, htotal]
    rfl
  refine ⟨_, .cons h (.cons hst (.nil _)), htotal', hsockets, fun hb => ?_⟩
  have hcard := hb.sockets
  rw [htotal', State.release, hsockets] at hcard
  exact absurd hcard (by decide)

end CppExample.Libev
