/-
# Isolation of the connections of the c1000k server

Two runs with the same batches and the same new descriptors, in which `recv` returns as many
bytes, are at the same places in their code all the time.  What is sent on a connection is a
function of what was received on it since it was accepted (`Echoed`), so two such runs in
which a connection receives the same messages send the same bytes on it, whatever the other
connections receive, and whoever had the descriptor before.
-/
import CppExample.C1000k.Connections

namespace CppExample.C1000k
open Lib

variable {ok ok' : ℕ → Bool} {sockfds : Finset ℤ} {s s' t t' : State}

/-! ## What is sent, from what is received -/

/-- The bytes that the calls of `recv` have returned, one by one. -/
def messages : List Act → List (List UInt8)
  | [] => []
  | .recv bytes :: log => bytes :: messages log
  | .send _ _ :: log => messages log

/-- The bytes that the calls of `send` were given, one by one. -/
def replies : List Act → List (List UInt8)
  | [] => []
  | .recv _ :: log => replies log
  | .send given _ :: log => given :: replies log

/-- The numbers of bytes that the calls of `send` have transferred. -/
def transfers : List Act → List ℕ
  | [] => []
  | .recv _ :: log => transfers log
  | .send _ transferred :: log => transferred.length :: transfers log

@[simp] lemma messages_append (log log' : List Act) :
    messages (log ++ log') = messages log ++ messages log' := by
  induction log with
  | nil => rfl
  | cons a log ih => cases a <;> simp [messages, ih]

@[simp] lemma replies_append (log log' : List Act) :
    replies (log ++ log') = replies log ++ replies log' := by
  induction log with
  | nil => rfl
  | cons a log ih => cases a <;> simp [replies, ih]

@[simp] lemma transfers_append (log log' : List Act) :
    transfers (log ++ log') = transfers log ++ transfers log' := by
  induction log with
  | nil => rfl
  | cons a log ih => cases a <;> simp [transfers, ih]

/-- The calls of `send` are given the contents of the buffer, and transfer the beginning of
it. -/
inductive Echoed : List Act → Prop
  | nil : Echoed []
  | recv {log : List Act} (h : Echoed log) (bytes : List UInt8) : Echoed (log ++ [.recv bytes])
  | send {log : List Act} (h : Echoed log) (n : ℕ) :
      Echoed (log ++ [.send (contents log) ((contents log).take n)])

/-- What is in the buffer is determined by what was received. -/
lemma contents_eq_of_messages {log log' : List Act} (h : messages log = messages log') :
    contents log = contents log' := by
  have hfold : ∀ (log : List Act) (x : List UInt8), log.foldl Act.fill x
      = (messages log).foldl (fun x bytes => bytes ++ x.drop bytes.length) x := by
    intro log
    induction log with
    | nil => exact fun x => rfl
    | cons a log ih =>
      intro x
      cases a with
      | recv bytes => exact ih _
      | send given transferred => exact ih _
  rw [contents, contents, hfold, hfold, h]

/-- The list ends in calls of the same kind. -/
lemma snoc_of_map_isRecv {log log' : List Act} {a : Act}
    (h : (log ++ [a]).map Act.isRecv = log'.map Act.isRecv) :
    ∃ l a', log' = l ++ [a'] ∧ log.map Act.isRecv = l.map Act.isRecv ∧ a.isRecv = a'.isRecv := by
  rw [List.map_append, eq_comm, List.map_eq_append_iff] at h
  obtain ⟨l, l', rfl, hl, hl'⟩ := h
  obtain ⟨a', rfl, ha⟩ := List.map_eq_singleton_iff.1 hl'
  exact ⟨l, a', rfl, hl.symm, ha.symm⟩

/-- Two connections with the same calls that receive the same messages are sent the same
bytes. -/
lemma Echoed.replies_eq {log log' : List Act} (h : Echoed log) (h' : Echoed log')
    (hkind : log.map Act.isRecv = log'.map Act.isRecv) (hmsg : messages log = messages log') :
    replies log = replies log' ∧ (transfers log = transfers log' → log = log') := by
  induction h generalizing log' with
  | nil =>
    obtain rfl := List.map_eq_nil_iff.1 hkind.symm
    exact ⟨rfl, fun _ => rfl⟩
  | @recv log h bytes ih =>
    obtain ⟨l, a', hl, hkinds, ha⟩ := snoc_of_map_isRecv hkind
    cases h' with
    | nil => simp at hl
    | send h' n =>
      obtain ⟨-, hlast⟩ := List.append_inj' hl rfl
      cases hlast
      cases ha
    | @recv log' h' bytes' =>
      obtain ⟨rfl, -⟩ := List.append_inj' hl rfl
      rw [messages_append, messages_append] at hmsg
      obtain ⟨hmsgs, hlast⟩ := List.append_inj' hmsg rfl
      cases hlast
      obtain ⟨hreplies, hlog⟩ := ih h' hkinds hmsgs
      refine ⟨by rw [replies_append, replies_append, hreplies], fun htr => ?_⟩
      rw [transfers_append, transfers_append] at htr
      rw [hlog (List.append_cancel_right htr)]
  | @send log h n ih =>
    obtain ⟨l, a', hl, hkind, ha⟩ := snoc_of_map_isRecv hkind
    cases h' with
    | nil => simp at hl
    | recv h' bytes =>
      obtain ⟨-, hlast⟩ := List.append_inj' hl rfl
      cases hlast
      cases ha
    | @send log' h' n' =>
      obtain ⟨rfl, -⟩ := List.append_inj' hl rfl
      have hmsg : messages log = messages log' := by simpa [messages] using hmsg
      have hbuf := contents_eq_of_messages hmsg
      obtain ⟨hreplies, hlog⟩ := ih h' hkind hmsg
      refine ⟨by rw [replies_append, replies_append, hreplies, hbuf]; rfl, fun htr => ?_⟩
      rw [transfers_append, transfers_append] at htr
      obtain ⟨htr, hlast⟩ := List.append_inj' htr rfl
      -- the two beginnings of the buffer are equally long
      have hlen : ((contents log').take n).length = ((contents log').take n').length := by
        rw [hbuf] at hlast
        exact List.head_eq_of_cons_eq hlast
      have htake : (contents log').take n = (contents log').take n' := by
        rw [List.take_eq_take_iff]
        simpa using hlen
      rw [hlog htr, htake]

/-! ## Runs -/

/-- As many bytes. -/
inductive RecvResult.Alike : RecvResult → RecvResult → Prop
  | data {bytes bytes' : List UInt8} (h : bytes.length = bytes'.length) :
      Alike (.data bytes) (.data bytes')
  | eof : Alike .eof .eof
  | error : Alike .error .error

/-- The same new descriptor, and as many bytes received. -/
structure Reply.Alike (r r' : Reply) : Prop where
  accept : r.accept = r'.accept
  recv : r.recv.Alike r'.recv

lemma Reply.Alike.refl (r : Reply) : r.Alike r := by
  refine ⟨rfl, ?_⟩
  generalize r.recv = x
  cases x with
  | data bytes => exact .data rfl
  | eof => exact .eof
  | error => exact .error

/-- The same batch, or answers that are alike. -/
inductive Input.Alike : Input → Input → Prop
  | wait (events : List Event) : Alike (.wait events) (.wait events)
  | handle {r r' : Reply} (h : r.Alike r') : Alike (.handle r) (.handle r')

/-- The two runs are at the same place. -/
structure State.Alike (s s' : State) : Prop where
  conns : s.conns = s'.conns
  interest : s.interest = s'.interest
  batch : s.batch = s'.batch
  kinds : ∀ fd, (s.log fd).map Act.isRecv = (s'.log fd).map Act.isRecv
  echoed : ∀ fd, Echoed (s.log fd) ∧ Echoed (s'.log fd)

lemma alike_start : (State.start sockfds).Alike (State.start sockfds) :=
  ⟨rfl, rfl, rfl, fun _ => rfl, fun _ => ⟨.nil, .nil⟩⟩

/-- A further call of the same kind on a connection. -/
lemma State.Alike.update_log (h : s.Alike s') {fd : ℤ} {log log' : List Act}
    (hlog : Echoed log) (hlog' : Echoed log')
    (hkind : log.map Act.isRecv = log'.map Act.isRecv) :
    (∀ fd', (Function.update s.log fd log fd').map Act.isRecv
      = (Function.update s'.log fd log' fd').map Act.isRecv) ∧
    ∀ fd', Echoed (Function.update s.log fd log fd') ∧
      Echoed (Function.update s'.log fd log' fd') := by
  refine ⟨fun fd' => ?_, fun fd' => ?_⟩
  · by_cases heq : fd' = fd
    · subst heq
      simpa using hkind
    · simpa [heq] using h.kinds fd'
  · by_cases heq : fd' = fd
    · subst heq
      simpa using ⟨hlog, hlog'⟩
    · simpa [heq] using h.echoed fd'

/-- Handling the same event, with answers that are alike. -/
lemma State.Alike.after (h : s.Alike s') {r r' : Reply} (hr : r.Alike r') (e : Event)
    (w w' : World) : (s.after sockfds e r w).Alike (s'.after sockfds e r' w') := by
  obtain ⟨haccept, hrecv⟩ := hr
  have hsnoc : ∀ a a' : Act, a.isRecv = a'.isRecv →
      (s.log e.fd ++ [a]).map Act.isRecv = (s'.log e.fd ++ [a']).map Act.isRecv := by
    intro a a' ha
    rw [List.map_append, List.map_append, h.kinds, List.map_singleton, List.map_singleton, ha]
  obtain ⟨hlog, hlog'⟩ := h.echoed e.fd
  by_cases hl : e.fd ∈ sockfds
  · simp only [State.after, hl, if_true, ← haccept]
    cases r.accept with
    | none => exact ⟨h.conns, h.interest, rfl, h.kinds, h.echoed⟩
    | some c =>
      obtain ⟨hkinds, hechoed⟩ := @State.Alike.update_log _ _ h c [] [] .nil .nil rfl
      exact ⟨congrArg (insert c) h.conns, by rw [h.interest], h.batch, hkinds, hechoed⟩
  · cases hin : e.epollin with
    | true =>
      simp only [State.after, hl, hin, if_true, if_false]
      generalize r.recv = x at hrecv ⊢
      generalize r'.recv = x' at hrecv ⊢
      cases hrecv with
      | @data bytes bytes' _ =>
        obtain ⟨hkinds, hechoed⟩ := @State.Alike.update_log _ _ h e.fd _ _
          (hlog.recv bytes) (hlog'.recv bytes') (hsnoc _ _ rfl)
        exact ⟨h.conns, by rw [h.interest], h.batch, hkinds, hechoed⟩
      | eof => exact ⟨by rw [h.conns], by rw [h.interest], h.batch, h.kinds, h.echoed⟩
      | error => exact ⟨h.conns, h.interest, h.batch, h.kinds, h.echoed⟩
    | false =>
      cases hout : e.epollout with
      | true =>
        simp only [State.after, hl, hin, hout, if_true, if_false, Bool.false_eq_true]
        obtain ⟨hkinds, hechoed⟩ := @State.Alike.update_log _ _ h e.fd _ _
          (hlog.send r.send.toNat) (hlog'.send r'.send.toNat) (hsnoc _ _ rfl)
        exact ⟨h.conns, by rw [h.interest], h.batch, hkinds, hechoed⟩
      | false =>
        simp only [State.after, hl, hin, hout, if_false, Bool.false_eq_true]
        exact ⟨h.conns, h.interest, h.batch, h.kinds, h.echoed⟩

/-- Two runs that are at the same place make the same step. -/
lemma Takes.alike {i i' : Input} (hi : i.Alike i') (hs : s.Sound sockfds)
    (hs' : s'.Sound sockfds) (halike : s.Alike s') (h : Takes ok sockfds i s t)
    (h' : Takes ok' sockfds i' s' t') : t.Alike t' := by
  cases hi with
  | wait events =>
    cases h
    cases h'
    exact ⟨halike.conns, halike.interest, rfl, halike.kinds, halike.echoed⟩
  | handle hr =>
    cases h with
    | @handle _ _ e rest r hb hrok ht =>
      cases h' with
      | @handle _ _ e' rest' r' hb' hrok' ht' =>
        have hbatch := halike.batch
        rw [hb, hb'] at hbatch
        cases hbatch
        obtain ⟨heq, -⟩ := hs.handle hb hrok ht
        obtain ⟨heq', -⟩ := hs'.handle hb' hrok' ht'
        rw [heq, heq']
        have hrest : ({ s with batch := rest } : State).Alike { s' with batch := rest } :=
          ⟨halike.conns, halike.interest, rfl, halike.kinds, halike.echoed⟩
        exact hrest.after hr e _ _

/-- **Connections are isolated.**  In two runs with the same batches and descriptors, in which
`recv` returns as many bytes, a connection that receives the same messages is sent the same
bytes; when `send` transfers as many bytes on it, all calls on it are the same. -/
theorem isolation {ins ins' : List Input} (hins : List.Forall₂ Input.Alike ins ins')
    (h : Trace (Takes ok sockfds) (State.start sockfds) ins s)
    (h' : Trace (Takes ok' sockfds) (State.start sockfds) ins' s') (fd : ℤ)
    (hmsg : messages (s.log fd) = messages (s'.log fd)) :
    replies (s.log fd) = replies (s'.log fd) ∧
      (transfers (s.log fd) = transfers (s'.log fd) → s.log fd = s'.log fd) := by
  have hrel : s.Sound sockfds ∧ s'.Sound sockfds ∧ s.Alike s' := by
    refine Trace.lockstep
      (R := fun s s' => s.Sound sockfds ∧ s'.Sound sockfds ∧ s.Alike s') ?_ hins h h'
      ⟨sound_start, sound_start, alike_start⟩
    rintro i i' s s' t t' hi ⟨hs, hs', halike⟩ hst hst'
    exact ⟨hst.sound hs, hst'.sound hs', hst.alike hi hs hs' halike hst'⟩
  obtain ⟨-, -, halike⟩ := hrel
  exact (halike.echoed fd).1.replies_eq (halike.echoed fd).2 (halike.kinds fd) hmsg

/-- The clients 5 and 6 come; each sends one byte, `a` and `b`; then 5 is answered. -/
def twoMessages (a b : UInt8) : List Input :=
  [.wait [⟨3, true, false⟩], .handle ⟨some 5, .error, bufferLength⟩,
    .wait [⟨3, true, false⟩], .handle ⟨some 6, .error, bufferLength⟩,
    .wait [⟨5, true, false⟩], .handle ⟨none, .data [a], bufferLength⟩,
    .wait [⟨6, true, false⟩], .handle ⟨none, .data [b], bufferLength⟩,
    .wait [⟨5, false, true⟩], .handle ⟨none, .error, bufferLength⟩]

lemma exists_twoMessages (a b : UInt8) : ∃ s,
    Trace (Takes (fun _ => true) {3}) (State.start {3}) (twoMessages a b) s ∧
      messages (s.log 5) = [[a]] ∧ (replies (s.log 5)).length = 1 ∧ messages (s.log 6) = [[b]] := by
  have hok : ∀ n : ℕ, (fun _ => true : ℕ → Bool) n = true := fun _ => rfl
  obtain ⟨w₁, h₁, hinv₁, hf₁⟩ := @exists_round _ {3} _ hok inv_start faithful_start rfl _
    (.readable (show (State.start {3}).interest 3 = _ from rfl)) ⟨some 5, .error, bufferLength⟩
    ⟨by simp [State.start], by simp⟩
  obtain ⟨w₂, h₂, hinv₂, hf₂⟩ := exists_round hok hinv₁ hf₁ rfl
    (.readable (show (State.interest _) 3 = _ from rfl))
    (show Reply.Ok {3} _ ⟨some 6, .error, bufferLength⟩ from
      ⟨by rintro c ⟨⟩; exact ⟨by decide, by decide, by simp [State.after, State.start]⟩, by simp⟩)
  obtain ⟨w₃, h₃, hinv₃, hf₃⟩ := exists_round hok hinv₂ hf₂ rfl
    (.readable (show (State.interest _) 5 = _ from rfl))
    (show Reply.Ok {3} _ ⟨none, .data [a], bufferLength⟩ from ⟨by simp, by simp [bufferLength]⟩)
  obtain ⟨w₄, h₄, hinv₄, hf₄⟩ := exists_round hok hinv₃ hf₃ rfl
    (.readable (show (State.interest _) 6 = _ from rfl))
    (show Reply.Ok {3} _ ⟨none, .data [b], bufferLength⟩ from ⟨by simp, by simp [bufferLength]⟩)
  obtain ⟨w₅, h₅, -⟩ := exists_round hok hinv₄ hf₄ rfl
    (.writable (show (State.interest _) 5 = _ from rfl))
    (show Reply.Ok {3} _ ⟨none, .error, bufferLength⟩ from ⟨by simp, by simp⟩)
  exact ⟨_, (((h₁.append h₂).append h₃).append h₄).append h₅, rfl, rfl, rfl⟩

/-- The answer to 5 does not depend on what 6 has sent. -/
theorem isolation_twoClients : ∃ s s',
    Trace (Takes (fun _ => true) {3}) (State.start {3}) (twoMessages 104 1) s ∧
      Trace (Takes (fun _ => true) {3}) (State.start {3}) (twoMessages 104 2) s' ∧
      messages (s.log 6) ≠ messages (s'.log 6) ∧ (replies (s.log 5)).length = 1 ∧
      replies (s.log 5) = replies (s'.log 5) := by
  obtain ⟨s, h, h5, hlen, h6⟩ := exists_twoMessages 104 1
  obtain ⟨s', h', h5', -, h6'⟩ := exists_twoMessages 104 2
  have hins : List.Forall₂ Input.Alike (twoMessages 104 1) (twoMessages 104 2) := by
    simp only [twoMessages, List.forall₂_cons, List.forall₂_nil_left_iff, and_true]
    refine ⟨.wait _, .handle (.refl _), .wait _, .handle (.refl _), .wait _, .handle (.refl _),
      .wait _, .handle ⟨rfl, .data rfl⟩, .wait _, .handle (.refl _)⟩
  refine ⟨s, s', h, h', by rw [h6, h6']; decide, hlen, ?_⟩
  exact (isolation hins h h' 5 (h5.trans h5'.symm)).1

end CppExample.C1000k
