/-
# What the c1000k server sends back

The server copies and sends whole buffers; the number of bytes that `recv` returned is not
kept, although `sock_item` has a member for it.  A message that does not fill the buffer is
therefore answered with more than was received: `overlongEcho` is such a run.  The answers
are exact as long as every message that is answered fills the buffer, and no longer.
-/
import CppExample.C1000k.Connections

namespace CppExample.C1000k
open Lib

variable {ok : ℕ → Bool} {sockfds : Finset ℤ} {s t : State}

/-- The bytes that a call received. -/
def Act.received : Act → List UInt8
  | .recv bytes => bytes
  | .send _ _ => []

/-- The bytes that a call sent. -/
def Act.sent : Act → List UInt8
  | .recv _ => []
  | .send _ transferred => transferred

/-- All bytes received on a connection. -/
def received (log : List Act) : List UInt8 := log.flatMap Act.received

/-- All bytes sent on a connection. -/
def sent (log : List Act) : List UInt8 := log.flatMap Act.sent

@[simp] lemma received_snoc (log : List Act) (a : Act) :
    received (log ++ [a]) = received log ++ a.received := by
  simp [received]

@[simp] lemma sent_snoc (log : List Act) (a : Act) : sent (log ++ [a]) = sent log ++ a.sent := by
  simp [sent]

/-- What was sent on a connection is a prefix of what was received on it. -/
def EchoesAll (s : State) : Prop := ∀ fd, sent (s.log fd) <+: received (s.log fd)

/-- Every `send` transfers all the bytes that it is given. -/
def Input.FullSend : Input → Prop
  | .wait _ => True
  | .handle r => r.send = bufferLength

/-- If the next event makes the server send on a connection, the message that is answered
fills the buffer. -/
def FullMessage (sockfds : Finset ℤ) (s : State) : Prop :=
  ∀ e rest, s.batch = e :: rest → e.fd ∉ sockfds → e.epollin = false → e.epollout = true →
    ∀ l bytes, s.log e.fd = l ++ [.recv bytes] → bytes.length = bufferLength

/-- The steps, with full sends, that meet the condition. -/
def FullNext (ok : ℕ → Bool) (sockfds : Finset ℤ) (s t : State) : Prop :=
  ∃ i, Takes ok sockfds i s t ∧ i.FullSend ∧ FullMessage sockfds s

/-! ## The calls on one connection -/

/-- All messages but one that is still to be answered were sent back exactly. -/
structure Exact (log : List Act) : Prop where
  unanswered : ∀ l bytes, log = l ++ [.recv bytes] → sent log = received l
  answered : ¬ Unanswered log → sent log = received log

lemma exact_nil : Exact [] :=
  ⟨fun l bytes h => absurd h.symm (by simp), fun _ => rfl⟩

lemma Exact.echoes {log : List Act} (h : Exact log) : sent log <+: received log := by
  by_cases hu : Unanswered log
  · obtain ⟨l, bytes, hlog⟩ := hu
    rw [h.unanswered l bytes hlog, hlog, received_snoc]
    exact List.prefix_append _ _
  · rw [h.answered hu]

lemma Exact.recv {log : List Act} (h : Exact log) (hu : ¬ Unanswered log) (bytes : List UInt8) :
    Exact (log ++ [.recv bytes]) := by
  refine ⟨fun l bytes' heq => ?_, fun hnot => absurd ⟨log, bytes, rfl⟩ hnot⟩
  obtain ⟨rfl, -⟩ := List.append_inj' heq rfl
  rw [sent_snoc, h.answered hu]
  exact List.append_nil _

/-- The answer to a message is exact if and only if the message fills the buffer. -/
lemma Exact.send {l : List Act} {bytes : List UInt8} (h : Exact (l ++ [Act.recv bytes]))
    (hfits : Fits (l ++ [Act.recv bytes])) {given : List UInt8}
    (hgiven : given = contents (l ++ [Act.recv bytes])) :
    (bytes.length = bufferLength → Exact (l ++ [Act.recv bytes] ++ [Act.send given given])) ∧
      (sent (l ++ [Act.recv bytes] ++ [Act.send given given])
          <+: received (l ++ [Act.recv bytes] ++ [Act.send given given]) →
        bytes.length = bufferLength) := by
  have hle := hfits bytes (by simp)
  have hlen := hfits.length_contents
  have hold := (hfits.of_prefix (List.prefix_append _ _)).length_contents
  have hsent := h.unanswered l bytes rfl
  refine ⟨fun hfull => ⟨fun l' bytes' heq => ?_, fun _ => ?_⟩, fun hpre => ?_⟩
  · cases (List.append_inj' heq rfl).2
  · have hall : given = bytes := by
      rw [hgiven, contents_snoc, Act.fill, List.drop_eq_nil_of_le (by omega), List.append_nil]
    rw [sent_snoc, received_snoc, hsent, received_snoc, hall]
    simp [Act.sent, Act.received]
  · -- the answer has the size of the buffer, and is a prefix of the message
    rw [sent_snoc, received_snoc, hsent, received_snoc] at hpre
    simp only [Act.sent, Act.received, List.append_nil, List.prefix_append_right_inj] at hpre
    have hge := hpre.length_le
    rw [hgiven, hlen] at hge
    exact le_antisymm hle hge

/-! ## A step -/

/-- What a step does to the calls of the connections. -/
lemma Takes.log_cases {i : Input} (h : Takes ok sockfds i s t) (hs : s.Sound sockfds) :
    (t.log = s.log ∨ (∃ c, t.log = Function.update s.log c []) ∨
      ∃ fd bytes, fd ∈ s.conns ∧ s.interest fd = some .epollin ∧
        t.log = Function.update s.log fd (s.log fd ++ [Act.recv bytes])) ∧
      FullMessage sockfds s ∨
    ∃ e rest r, i = .handle r ∧ s.batch = e :: rest ∧ e.fd ∉ sockfds ∧ e.epollin = false ∧
      e.epollout = true ∧ e.fd ∈ s.conns ∧ s.interest e.fd = some .epollout ∧
      t.log = Function.update s.log e.fd (s.log e.fd ++
        [Act.send (contents (s.log e.fd)) ((contents (s.log e.fd)).take r.send.toNat)]) := by
  cases h with
  | wait hb hev => exact Or.inl ⟨Or.inl rfl, fun e rest hb' => by rw [hb] at hb'; cases hb'⟩
  | @handle _ _ e rest r hb hr ht =>
    have hdue := hs.listed.due e (hb ▸ List.mem_cons_self)
    obtain ⟨heq, -⟩ := hs.handle hb hr ht
    -- the event is the next one, whatever the condition calls it
    have hnot : (e.fd ∈ sockfds ∨ e.epollin = true ∨ e.epollout = false) →
        FullMessage sockfds s := by
      intro hcase e' rest' hb' hl hin hout
      rw [hb] at hb'
      cases hb'
      rcases hcase with h1 | h1 | h1
      · exact absurd h1 hl
      · rw [hin] at h1
        cases h1
      · rw [hout] at h1
        cases h1
    rw [heq, State.after]
    by_cases hl : e.fd ∈ sockfds
    · refine Or.inl ⟨?_, hnot (Or.inl hl)⟩
      rw [if_pos hl]
      cases r.accept with
      | none => exact Or.inl rfl
      | some c => exact Or.inr (Or.inl ⟨c, rfl⟩)
    · obtain ⟨hc, hepin, hepout⟩ := hdue.resolve_left hl
      rw [if_neg hl]
      cases hin : e.epollin with
      | true =>
        refine Or.inl ⟨?_, hnot (Or.inr (Or.inl hin))⟩
        rw [if_pos rfl]
        cases r.recv with
        | data bytes => exact Or.inr (Or.inr ⟨e.fd, bytes, hc, hepin hin, rfl⟩)
        | eof => exact Or.inl rfl
        | error => exact Or.inl rfl
      | false =>
        cases hout : e.epollout with
        | true => exact Or.inr ⟨e, rest, r, rfl, hb, hl, hin, hout, hc, hepout hout, rfl⟩
        | false => exact Or.inl ⟨Or.inl rfl, hnot (Or.inr (Or.inr hout))⟩

/-- Being registered for reading or for writing tells whether a message is unanswered. -/
lemma State.Sound.unanswered_iff (hs : s.Sound sockfds) {fd : ℤ} (hfd : fd ∈ s.conns) :
    s.interest fd = some .epollout ↔ Unanswered (s.log fd) := by
  rw [((hs.listed.registered.alternates fd hfd)).unanswered_iff]
  exact hs.listed.registered.phase fd hfd

/-- A step with a full send keeps all answers exact if and only if it meets the condition. -/
lemma Takes.exact {i : Input} (h : Takes ok sockfds i s t) (hs : s.Sound sockfds)
    (hexact : ∀ fd, Exact (s.log fd)) (hfull : i.FullSend) :
    (FullMessage sockfds s → ∀ fd, Exact (t.log fd)) ∧ (EchoesAll t → FullMessage sockfds s) := by
  rcases h.log_cases hs with ⟨hlog, hmeets⟩ | ⟨e, rest, r, rfl, hb, hl, hin, hout, hc, hi, hlog⟩
  · refine ⟨fun _ => ?_, fun _ => hmeets⟩
    rcases hlog with hlog | ⟨c, hlog⟩ | ⟨fd, bytes, hfd, hi, hlog⟩
    · rw [hlog]
      exact hexact
    · rw [hlog]
      exact (Function.forall_update_iff _ fun _ => Exact).2 ⟨exact_nil, fun fd _ => hexact fd⟩
    · have hu : ¬ Unanswered (s.log fd) := by
        rw [← hs.unanswered_iff hfd, hi]
        decide
      rw [hlog]
      exact (Function.forall_update_iff _ fun _ => Exact).2
        ⟨(hexact fd).recv hu bytes, fun fd' _ => hexact fd'⟩
  · obtain ⟨l, bytes, hlast⟩ := (hs.unanswered_iff hc).1 hi
    have hfits := hs.faithful.fits e.fd
    have hall : (contents (s.log e.fd)).take r.send.toNat = contents (s.log e.fd) := by
      have hlen := hfits.length_contents
      rw [Input.FullSend] at hfull
      rw [hfull, Int.toNat_natCast, ← hlen, List.take_length]
    rw [hall] at hlog
    have hex := hexact e.fd
    rw [hlast] at hex hfits
    obtain ⟨hmeets, hconv⟩ := hex.send hfits (congrArg contents hlast)
    constructor
    · intro hcond
      rw [hlog]
      refine (Function.forall_update_iff _ fun _ => Exact).2 ⟨?_, fun fd _ => hexact fd⟩
      rw [hlast]
      rw [hlast] at hmeets
      exact hmeets (hcond e rest hb hl hin hout l bytes hlast)
    · intro hecho e' rest' hb' _ _ _ l' bytes' hlast'
      rw [hb] at hb'
      cases hb'
      rw [hlast] at hlast'
      obtain ⟨rfl, hbytes⟩ := List.append_inj' hlast' rfl
      cases hbytes
      have hfd := hecho e.fd
      rw [hlog, Function.update_self, hlast] at hfd
      rw [hlast] at hconv
      exact hconv hfd

/-! ## Runs -/

/-- **When the server echoes exactly.**  In a run with full sends in which every message that
is answered fills the buffer, what was sent on a connection is a prefix of what was received
on it; and a further step that answers a shorter message leads to a state in which it is
not. -/
theorem echoesAll_iff_fullMessage {s : State}
    (h : Reachable (fun s => s = State.start sockfds) (FullNext ok sockfds) s) :
    EchoesAll s ∧ ∀ i t, Takes ok sockfds i s t → i.FullSend →
      (EchoesAll t ↔ FullMessage sockfds s) := by
  have hinv : s.Sound sockfds ∧ ∀ fd, Exact (s.log fd) := by
    refine Reachable.invariant (I := fun s : State => s.Sound sockfds ∧ ∀ fd, Exact (s.log fd))
      ?_ ?_ h
    · rintro s rfl
      exact ⟨sound_start, fun _ => exact_nil⟩
    · rintro s t - ⟨hs, hexact⟩ ⟨i, hst, hfull, hcond⟩
      exact ⟨hst.sound hs, (hst.exact hs hexact hfull).1 hcond⟩
  obtain ⟨hs, hexact⟩ := hinv
  refine ⟨fun fd => (hexact fd).echoes, fun i t hst hfull => ⟨(hst.exact hs hexact hfull).2, ?_⟩⟩
  exact fun hcond fd => ((hst.exact hs hexact hfull).1 hcond fd).echoes

/-- One client, 5, comes, sends a message, and is answered, each in a batch of its own. -/
def oneMessage (bytes : List UInt8) : List Input :=
  [.wait [⟨3, true, false⟩], .handle ⟨some 5, .error, bufferLength⟩,
    .wait [⟨5, true, false⟩], .handle ⟨none, .data bytes, bufferLength⟩,
    .wait [⟨5, false, true⟩], .handle ⟨none, .error, bufferLength⟩]

/-- A step that does not send meets the condition. -/
lemma fullMessage_of_not_epollout {e : Event} (hout : e.epollout = false) :
    FullMessage sockfds { s with batch := [e] } := by
  rintro e' rest ⟨⟩ - - hout'
  rw [hout] at hout'
  cases hout'

/-- So does one that answers a message of 128 bytes. -/
lemma fullMessage_of_log {fd : ℕ} {bytes : List UInt8} (hb : s.batch = [⟨fd, false, true⟩])
    (hlog : s.log fd = [.recv bytes]) (hlen : bytes.length = bufferLength) :
    FullMessage sockfds s := by
  intro e rest hb' _ _ _ l bytes' hl
  rw [hb] at hb'
  cases hb'
  rw [hlog] at hl
  obtain ⟨-, hbytes⟩ := List.append_inj' (show [] ++ [Act.recv bytes] = _ from hl) rfl
  cases hbytes
  exact hlen

lemma reachable_round {e : Event} {r : Reply}
    (h : Reachable (fun s => s = State.start sockfds) (FullNext ok sockfds) s)
    (ht : Trace (Takes ok sockfds) s [.wait [e], .handle r] t) (hsend : r.send = bufferLength)
    (hout : e.epollout = false) :
    Reachable (fun s => s = State.start sockfds) (FullNext ok sockfds) t := by
  cases ht with
  | cons hwait ht =>
    cases ht with
    | cons hhandle ht =>
      cases ht
      cases hwait with
      | wait hb hev =>
        have hcond : FullMessage sockfds s := fun e' rest hb' => by rw [hb] at hb'; cases hb'
        exact (h.tail ⟨_, .wait hb hev, trivial, hcond⟩).tail
          ⟨_, hhandle, hsend, fullMessage_of_not_epollout hout⟩

/-- The run of `oneMessage`, up to the last event. -/
lemma exists_oneMessage {bytes : List UInt8} (hne : bytes ≠ [])
    (hle : bytes.length ≤ bufferLength) :
    ∃ s t, Trace (Takes (fun _ => true) {3}) (State.start {3}) (oneMessage bytes).dropLast s ∧
      Reachable (fun s => s = State.start {3}) (FullNext (fun _ => true) {3}) s ∧
      Takes (fun _ => true) {3} (.handle ⟨none, .error, bufferLength⟩) s t ∧
      s.batch = [⟨5, false, true⟩] ∧ s.log 5 = [.recv bytes] ∧
      t.log 5 = [.recv bytes, .send (contents [.recv bytes]) (contents [.recv bytes])] := by
  have hok : ∀ n : ℕ, (fun _ => true : ℕ → Bool) n = true := fun _ => rfl
  have hlen : (contents [.recv bytes]).length = bufferLength :=
    Fits.length_contents fun b hb => by cases List.mem_singleton.1 hb; exact hle
  obtain ⟨w₁, h₁, hinv₁, hf₁⟩ := @exists_round _ {3} _ hok inv_start faithful_start rfl _
    (.readable (show (State.start {3}).interest 3 = _ from rfl)) ⟨some 5, .error, bufferLength⟩
    ⟨by simp [State.start], by simp⟩
  obtain ⟨w₂, h₂, hinv₂, hf₂⟩ := exists_round hok hinv₁ hf₁ rfl
    (.readable (show (State.interest _) 5 = _ from rfl))
    (show Reply.Ok {3} _ ⟨none, .data bytes, bufferLength⟩ from
      ⟨by simp, by rintro b ⟨⟩; exact ⟨hne, hle⟩⟩)
  obtain ⟨w₃, h₃, -⟩ := exists_round hok hinv₂ hf₂ rfl
    (.writable (show (State.interest _) 5 = _ from rfl))
    (show Reply.Ok {3} _ ⟨none, .error, bufferLength⟩ from ⟨by simp, by simp⟩)
  cases h₃ with
  | cons hwait h₃ =>
    cases h₃ with
    | cons hsend h₃ =>
      cases h₃
      have hreach := reachable_round (reachable_round (.of_init rfl) h₁ rfl rfl) h₂ rfl rfl
      have hwait' := hreach.tail ⟨_, hwait, trivial, fun e rest hb => by cases hb⟩
      cases hwait
      refine ⟨_, _, (h₁.append h₂).append (.cons (.wait ‹_› ‹_›) (.nil _)), hwait', hsend, rfl, rfl,
        ?_⟩
      have hall : (contents [.recv bytes]).take bufferLength = contents [.recv bytes] := by
        rw [← hlen, List.take_length]
      show [Act.recv bytes] ++ [Act.send (contents [.recv bytes])
        ((contents [.recv bytes]).take bufferLength)] = _
      rw [hall]
      rfl

/-- The message `h` is answered with 128 bytes. -/
theorem overlongEcho :
    ∃ s, Trace (Takes (fun _ => true) {3}) (State.start {3}) (oneMessage [104]) s ∧
    (∀ i ∈ oneMessage [104], i.FullSend) ∧ ¬ EchoesAll s := by
  obtain ⟨s, t, h, -, hst, -, -, hlog⟩ := @exists_oneMessage [104] (by decide) (by decide)
  refine ⟨t, h.append (.cons hst (.nil t)), ?_, fun hecho => ?_⟩
  · simp [oneMessage, Input.FullSend]
  · have hle := (hecho 5).length_le
    have hlen : (contents [.recv [104]]).length = bufferLength :=
      Fits.length_contents fun bytes hb => by cases List.mem_singleton.1 hb; decide
    simp [hlog, sent, received, Act.sent, Act.received, hlen, bufferLength] at hle

/-- The answer to a message that fills the buffer is exact. -/
theorem echoesAll_fullBuffer : ∃ s, Reachable (fun s => s = State.start {3})
      (FullNext (fun _ => true) {3}) s ∧ s.log 5 = [.recv (List.replicate 128 104)] ∧
    EchoesAll s ∧ ∃ t, Takes (fun _ => true) {3} (.handle ⟨none, .error, bufferLength⟩) s t ∧
      EchoesAll t := by
  obtain ⟨s, t, -, hreach, hst, hb, hlast, -⟩ :=
    @exists_oneMessage (List.replicate 128 104) (by simp) (by simp [bufferLength])
  obtain ⟨hecho, hiff⟩ := echoesAll_iff_fullMessage hreach
  exact ⟨s, hreach, hlast, hecho, t, hst,
    (hiff _ t hst rfl).2 (fullMessage_of_log hb hlast List.length_replicate)⟩

end CppExample.C1000k
