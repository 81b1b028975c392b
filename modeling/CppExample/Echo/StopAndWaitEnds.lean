/-
# How a session ends

Every byte that is still to be typed, sent, echoed or printed is some work, and every step but an
interruption does a part of it: `work_step`.  So a session between `str_cli` and `str_echo` comes
to an end.

If the server does not fail, and the system has room for a line, then only one thing can keep the
two from going on: the client waits for the end of an answer that has none, because the line
that it has sent has none.  `str_cli` sends a line without the newline if the input does not end
with a newline, or if the line contains a 0.
-/
import CppExample.Echo.StopAndWait

namespace CppExample.Echo.StopAndWait
open Lib BasicLib

variable {size capacity : ℕ} {input line got unsent bytes : List UInt8}
  {printed : List (List UInt8)} {s t : Session} {arrivals : List Arrival} {a : Act}

/-! ## The work that is left -/

/-- A process that runs has one step more to do than one that has ended. -/
def running (closed : Bool) : ℕ := if closed then 0 else 1

/-- The work outside the client. -/
def Session.outside (s : Session) : ℕ :=
  6 * s.stdin.length + 4 * s.toServer.length + 3 * s.server.left.length + 2 * s.toClient.length
    + running s.server.closed

/-- The work inside the client. -/
def Session.inside (s : Session) : ℕ :=
  running s.client.closed +
    match s.client with
    | .writen left => 5 * left.length
    | .readline arrivals => (Source.reads ⟨s.static, arrivals⟩).length
    | _ => 0

/-- The work that is left. -/
def Session.work (s : Session) : ℕ := s.outside + s.inside

@[simp] lemma running_false : running false = 1 := rfl

@[simp] lemma running_true : running true = 0 := rfl

lemma onReadline_work (size : ℕ) (s : Session) (arrivals : List Arrival) :
    (s.onReadline size arrivals).work
      ≤ s.outside + (Source.reads ⟨s.static, arrivals⟩).length + 1 := by
  rw [Session.onReadline]
  cases readline size ⟨s.static, arrivals⟩ with
  | none => simp [Session.work, Session.outside, Session.inside, Client.closed]; omega
  | some r =>
    simp only
    split_ifs
    all_goals
      simp [Session.work, Session.outside, Session.inside, Client.closed]
      try omega

lemma onWriten_work (size : ℕ) (hu : s.static.unread = []) (bytes : List UInt8) :
    (s.onWriten size (.loop bytes)).work ≤ s.outside + 5 * bytes.length + 1 := by
  by_cases hb : bytes = []
  · subst hb
    have hwork := onReadline_work size s []
    rwa [reads_of_unread hu] at hwork
  · rw [Writen.loop, if_neg hb]
    simp [Session.onWriten, Session.work, Session.outside, Session.inside, Client.closed]
    omega

/-- A client that is at some place with this work inside, which takes it out. -/
lemma work_of_outside {n : ℕ} (h : s.inside = n) : s.work = s.outside + n := by
  rw [Session.work, h]

lemma inside_fgets (hc : s.client = .fgets) : s.inside = 1 := by
  simp [Session.inside, hc, Client.closed]

lemma inside_writen (hc : s.client = .writen bytes) : s.inside = 5 * bytes.length + 1 := by
  simp [Session.inside, hc, Client.closed]
  omega

lemma inside_readline (hc : s.client = .readline arrivals) :
    s.inside = (Source.reads ⟨s.static, arrivals⟩).length + 1 := by
  simp [Session.inside, hc, Client.closed]
  omega

lemma inside_closed (hc : s.client.closed) : s.inside = 0 := by
  cases hclient : s.client <;> simp_all [Session.inside, Client.closed]

/-- A step of the server does not change what is inside the client. -/
lemma inside_server (hc : t.client = s.client) (hstatic : t.static = s.static) :
    t.inside = s.inside := by
  rw [Session.inside, Session.inside, hc, hstatic]

lemma closed_onWriten_loop (bytes : List UInt8) :
    (StrEcho.onWriten (.loop bytes)).closed = false := by
  rcases onWriten_loop_cases bytes with ⟨-, h⟩ | ⟨-, h⟩ <;> simp [h, StrEcho.closed]

lemma work_onFgets (hsize : 2 ≤ size) (h : Phase size input s) (hc : s.client = .fgets) :
    (s.onFgets size).work < s.work := by
  have hwork := work_of_outside (inside_fgets hc)
  by_cases hin : s.stdin = []
  · have heq : s.onFgets size = { s with client := .returned } := by
      rw [Session.onFgets]
      simp [hin]
    rw [heq, hwork]
    simp [Session.work, Session.outside, Session.inside, Client.closed]
  · have hne : firstLine isNewline (size - 1) s.stdin ≠ [] := firstLine_ne_nil (by omega) hin
    have heq : s.onFgets size = { s with stdin := afterLine isNewline (size - 1) s.stdin }.onWriten
        size (.loop (cstr (firstLine isNewline (size - 1) s.stdin))) := by
      rw [Session.onFgets]
      simp only [if_neg hne]
    have hu : s.static.unread = [] := by
      rcases h.of_fgets hc with ⟨_, _, _, hu⟩ | ⟨_, hu⟩ <;> exact hu
    have hafter := onWriten_work
      (s := { s with stdin := afterLine isNewline (size - 1) s.stdin }) size hu
      (cstr (firstLine isNewline (size - 1) s.stdin))
    have hsplit : firstLine isNewline (size - 1) s.stdin ++ afterLine isNewline (size - 1) s.stdin
        = s.stdin := firstLine_append_afterLine _ _
    have hlen := congrArg List.length hsplit
    have hcstr := (cstr_isPrefix (firstLine isNewline (size - 1) s.stdin)).length_le
    have hpos := List.length_pos_iff.2 hne
    rw [List.length_append] at hlen
    rw [heq, hwork]
    simp only [Session.outside] at hafter ⊢
    omega

lemma Ended.work (h : Ended s t got) : t.work ≤ s.outside + got.length := by
  have houtside : t.outside = s.outside := by
    rw [Session.outside, h.stdin, h.toServer, h.server, h.toClient]
    rfl
  rcases h.client with ⟨-, hclosed⟩ | ⟨hne, -, hc, -⟩
  · rw [work_of_outside (inside_closed hclosed), houtside]
    omega
  · have := List.length_pos_iff.2 hne
    rw [work_of_outside (inside_fgets hc), houtside]
    omega

/-- The work when only the server has changed. -/
lemma work_server (s : Session) (echo : StrEcho) :
    ({ s with server := echo } : Session).work
        + (3 * s.server.left.length + running s.server.closed)
      = s.work + (3 * echo.left.length + running echo.closed) := by
  have hinside := inside_server (s := s) (t := { s with server := echo }) rfl rfl
  rw [Session.work, Session.work, hinside]
  simp only [Session.outside]
  omega

/-- The server goes on with `rest` to be written. -/
lemma work_of_loop (rest toServer toClient : List UInt8) {echo : StrEcho}
    (hs : s.server.closed = false) (hecho : echo = .onWriten (.loop rest))
    (hless : 4 * toServer.length + 3 * rest.length + 2 * toClient.length <
      4 * s.toServer.length + 3 * s.server.left.length + 2 * s.toClient.length) :
    ({ s with server := echo, toServer := toServer, toClient := toClient } : Session).work
      < s.work := by
  have hinside := inside_server (s := s)
    (t := { s with server := echo, toServer := toServer, toClient := toClient }) rfl rfl
  rw [Session.work, Session.work, hinside]
  simp only [Session.outside, hs, hecho, left_onWriten_loop, closed_onWriten_loop]
  omega

/-- An interruption does not make the work more, and any other step makes it less. -/
lemma work_step (hsize : 2 ≤ size) (h : Phase size input s) (hst : Step size capacity a s t) :
    t.work + (if a = .interrupted then 0 else 1) ≤ s.work := by
  cases hst with
  | fgets hc => simpa using work_onFgets hsize h hc
  | @clientWrote _ bytes k hc hk hle hroom =>
    obtain ⟨-, hu, -⟩ := h.of_writen hc
    have hafter := onWriten_work
      (s := { s with toServer := s.toServer ++ bytes.take k }) size hu (bytes.drop k)
    rw [onWrite_bytes_pos hk, work_of_outside (inside_writen hc)]
    simp only [Session.outside, List.length_append, List.length_take, List.length_drop,
      reduceCtorEq, if_false] at hafter ⊢
    omega
  | @clientRead _ arrivals k hc hk hle hmax =>
    have hafter := onReadline_work size { s with toClient := s.toClient.drop k }
      (arrivals ++ putBack (s.toClient.take k) [])
    rw [reads_append, flatMap_reads_putBack] at hafter
    rw [work_of_outside (inside_readline hc)]
    simp only [Session.outside, List.length_append, List.length_take, List.length_drop,
      List.length_map, List.flatMap_nil, List.append_nil, reduceCtorEq, if_false] at hafter ⊢
    omega
  | clientEof hc hempty hs =>
    obtain ⟨got, hr, hb, hzero, -⟩ := h.found hsize hc
    have hafter := (ended_onReadline hsize hr hb hzero (.inl rfl)).work
    rw [work_of_outside (inside_readline hc), hr]
    simp only [List.length_map, reduceCtorEq, if_false] at hafter ⊢
    omega
  | readFailed hc hs =>
    obtain ⟨got, hr, hb, hzero, -⟩ := h.found hsize hc
    have hafter :=
      (ended_onReadline (s := { s with toClient := [] }) hsize hr hb hzero (.inr rfl)).work
    rw [work_of_outside (inside_readline hc), hr]
    simp only [Session.outside, List.length_map, List.length_nil, reduceCtorEq, if_false]
      at hafter ⊢
    omega
  | writeFailed hc hs =>
    rw [work_of_outside (inside_writen hc)]
    simp [Session.onWriten, Writen.onWrite, Session.work, Session.outside, Session.inside,
      Client.closed]
  | @readInterrupted _ arrivals hc =>
    have hafter := onReadline_work size s (arrivals ++ [.eintr])
    rw [reads_append] at hafter
    rw [work_of_outside (inside_readline hc)]
    simp [Arrival.reads] at hafter ⊢
    omega
  | @writeInterrupted _ bytes hc =>
    obtain ⟨-, hu, -⟩ := h.of_writen hc
    have hafter := onWriten_work size hu bytes
    rw [work_of_outside (inside_writen hc)]
    simp [Writen.onWrite] at hafter ⊢
    omega
  | @serverRead _ k hs hk hle hmax =>
    have hless := work_of_loop (s := s) (s.toServer.take k) (s.toServer.drop k) s.toClient
      (by rw [hs]; rfl) rfl (by
        rw [List.length_drop, List.length_take]
        omega)
    simp only [reduceCtorEq, if_false]
    exact hless
  | serverEof hs hempty hc =>
    have hafter := work_server s (.onRead .eof)
    simp [hs, StrEcho.onRead, StrEcho.closed] at hafter ⊢
    omega
  | @serverWrote _ bytes k hs hk hle hroom =>
    have hless := work_of_loop (s := s) (bytes.drop k) s.toServer
      (s.toClient ++ bytes.take k) (by rw [hs]; rfl) (onWrite_of_pos hk) (by
        rw [hs, left_writing, List.length_append, List.length_drop, List.length_take]
        omega)
    simp only [reduceCtorEq, if_false]
    exact hless
  | serverReadInterrupted hs =>
    have heq : { s with server := .onRead .eintr } = s := by
      rw [StrEcho.onRead, ← hs]
    rw [heq]
    simp
  | @serverWriteInterrupted _ bytes hs =>
    have hafter := work_server s (.onWrite bytes .eintr)
    have hleft : (StrEcho.onWrite bytes .eintr).left = bytes := left_onWriten_loop bytes
    have hclosed : (StrEcho.onWrite bytes .eintr).closed = false := closed_onWriten_loop bytes
    have hopen : s.server.closed = false := by rw [hs]; rfl
    rw [hleft, hclosed, hopen, hs, left_writing] at hafter
    rw [if_pos rfl]
    omega
  | serverFailed hopen =>
    have hafter := work_server s .failed
    have hs : s.server.closed = false := by simpa using hopen
    have hleft : StrEcho.failed.left = [] := rfl
    have hclosed : StrEcho.failed.closed = true := rfl
    rw [hs, hleft, hclosed, running_false, running_true, List.length_nil] at hafter
    rw [if_neg (by decide)]
    omega

/-- The steps of a run are bounded by the work that there is at its beginning. -/
lemma work_of_trace (hsize : 2 ≤ size) {acts : List Act} (hs : Phase size input s)
    (h : Trace (Step size capacity) s acts t) :
    t.work + acts.countP (· ≠ .interrupted) ≤ s.work := by
  have huse : ∀ a s t, Phase size input s → Step size capacity a s t →
      decide (a ≠ .interrupted) = true → t.work + 1 ≤ s.work := by
    intro a s t hs hst ha
    have hstep := work_step hsize hs hst
    rwa [if_neg (of_decide_eq_true ha)] at hstep
  have hgive : ∀ a s t, Phase size input s → Step size capacity a s t →
      decide (a ≠ .interrupted) = false → t.work ≤ s.work + 0 := by
    intro a s t hs hst _
    rw [add_zero]
    exact (Nat.le_add_right _ _).trans (work_step hsize hs hst)
  have hle := h.add_countP_le (fun a s t hs hst => phase_step hsize hs hst) huse hgive hs
  rwa [zero_mul, add_zero] at hle

/-! ## Where a session stops -/

/-- Nothing can happen any more, unless a call is interrupted or the server fails. -/
def Stopped (size capacity : ℕ) (s : Session) : Prop :=
  ∀ a t, Step size capacity a s t → a = .interrupted ∨ a = .serverFailed

/-- The client has got all its answers. -/
structure Complete (size : ℕ) (input : List UInt8) (s : Session) : Prop where
  answerable : ∀ x ∈ inputLines size input, Answerable size x
  client : s.client = .returned
  server : s.server = .returned
  stdout : s.stdout = input

/-- The client waits for the end of an answer that has none. -/
structure Hanging (size : ℕ) (input : List UInt8) (printed : List (List UInt8)) (line : List UInt8)
    (rest : List (List UInt8)) (s : Session) : Prop where
  lines : inputLines size input = printed ++ line :: rest
  answerable : ∀ x ∈ printed, Answerable size x
  not_answerable : ¬ Answerable size line
  stdout : s.stdout = printed.flatten
  client : ∃ arrivals, s.client = .readline arrivals
  server : s.server = .reading
  toServer : s.toServer = []
  toClient : s.toClient = []

lemma Asking.room (h : Asking size input printed line got unsent s) (hs : s.server ≠ .failed) :
    got.length + s.toClient.length + s.server.left.length + s.toServer.length + unsent.length
      ≤ size - 1 := by
  have hlen := congrArg List.length (h.going hs)
  have hcstr := (cstr_isPrefix line).length_le
  have hline : (firstLine isNewline (size - 1) line).length ≤ size - 1 :=
    length_firstLine_le _ _
  rw [h.isLine.2] at hline
  simp only [List.length_append] at hlen
  omega

/-- A server that writes does not stop while there is room. -/
lemma not_stopped_of_writing (hne : bytes ≠ []) (hs : s.server = .writing bytes)
    (hroom : s.toClient.length + 1 ≤ capacity) : ¬ Stopped size capacity s := by
  intro h
  have hpos := List.length_pos_iff.2 hne
  rcases h _ _ (.serverWrote hs one_pos hpos hroom) with ha | ha <;> cases ha

/-- A server that reads does not stop while there is something to read. -/
lemma not_stopped_of_reading (hne : s.toServer ≠ []) (hs : s.server = .reading) :
    ¬ Stopped size capacity s := by
  intro h
  have hpos := List.length_pos_iff.2 hne
  rcases h _ _ (.serverRead hs one_pos hpos (by decide)) with ha | ha <;> cases ha

/-- The only line that keeps the client waiting. -/
lemma not_answerable (h : Asking size input printed line got [] s) (hs : s.server = .reading)
    (hto : s.toServer = []) (hfrom : s.toClient = [])
    (hw : ¬ Whole isNewline (size - 1) (firstLine isNewline (size - 1) got)) :
    ¬ Answerable size line := by
  rintro ⟨hzero, hwhole⟩
  have hgoing := h.going (by simp [hs])
  have hcstr : cstr line = line := by
    refine List.takeWhile_eq_self_iff.2 fun b hb => ?_
    simp only [ne_eq, decide_not, Bool.not_eq_eq_eq_not, Bool.not_true, decide_eq_false_iff_not]
    rintro rfl
    exact hzero hb
  simp only [hs, hto, hfrom, left_reading, List.append_nil, hcstr] at hgoing
  rw [hgoing, h.isLine.2] at hw
  exact hw hwhole

/-- Where a session stops. -/
lemma complete_or_hanging (hsize : 2 ≤ size) (hcap : size - 1 ≤ capacity)
    (h : Phase size input s) (halive : s.server ≠ .failed) (hstop : Stopped size capacity s) :
    Complete size input s ∨ ∃ printed line rest, Hanging size input printed line rest s := by
  cases h with
  | idle printed h hc _ _ => rcases hstop _ _ (.fgets hc) with ha | ha <;> cases ha
  | sending printed line bytes h hc hne _ =>
    have hpos := List.length_pos_iff.2 hne
    have hroom := h.room halive
    rcases hstop _ _ (.clientWrote hc one_pos hpos (by omega)) with ha | ha <;> cases ha
  | waiting printed line got arrivals h hc hr hb =>
    have hroom := h.room halive
    have hfrom : s.toClient = [] := by
      by_contra hne
      have hpos := List.length_pos_iff.2 hne
      rcases hstop _ _ (.clientRead hc one_pos hpos (by decide)) with ha | ha <;> cases ha
    cases hs : s.server with
    | reading =>
      have hto : s.toServer = [] := by
        by_contra hne
        exact not_stopped_of_reading hne hs hstop
      exact .inr ⟨printed, line, _, h.all, h.answered,
        not_answerable h hs hto hfrom ((readline_none_iff hr).1 hb), h.stdout, ⟨arrivals, hc⟩, hs,
        hto, hfrom⟩
    | writing bytes =>
      have hne : bytes ≠ [] := by
        rintro rfl
        exact h.nonempty hs
      refine absurd hstop (not_stopped_of_writing hne hs ?_)
      rw [hfrom, List.length_nil]
      omega
    | returned => exact absurd hs h.serving
    | failed => exact absurd hs halive
  | finished printed h hc hin =>
    obtain ⟨hleft, hto⟩ := h.quiet halive
    have hall : inputLines size input = printed := by
      rw [h.all, hin]
      simp [inputLines]
    cases hs : s.server with
    | reading =>
      rcases hstop _ _ (.serverEof hs hto (by rw [hc]; rfl)) with ha | ha <;> cases ha
    | writing bytes =>
      rw [hs, left_writing] at hleft
      subst hleft
      exact absurd hs h.nonempty
    | returned =>
      refine .inl ⟨by rw [hall]; exact h.answered, hc, hs, ?_⟩
      rw [input_eq hsize hall, h.stdout]
    | failed => exact absurd hs halive
  | cut h _ _ => exact absurd h.failed halive
  | cutWaiting _ h _ _ => exact absurd h.failed halive
  | gone hs _ _ => exact absurd hs halive

/-- A session has a bounded number of steps.  If it stops, and the server has not failed, then
either the client has printed its input, or it waits for the answer to a line that is not
answerable.  The first is the case if all lines are answerable. -/
theorem session_ends (hsize : 2 ≤ size) (hcap : size - 1 ≤ capacity) {acts : List Act}
    (h : Trace (Step size capacity) (Session.start input) acts s) :
    acts.countP (· ≠ .interrupted) ≤ 6 * input.length + 2 ∧
      (s.server ≠ .failed → Stopped size capacity s →
        if ∀ x ∈ inputLines size input, Answerable size x then Complete size input s
        else ∃ printed line rest, Hanging size input printed line rest s) := by
  have hstart : (Session.start input).work = 6 * input.length + 2 := by
    simp [Session.start, Session.work, Session.outside, Session.inside, Client.closed,
      StrEcho.closed]
  have hphase := phase_of_trace hsize h
  refine ⟨?_, fun halive hstop => ?_⟩
  · have := work_of_trace hsize (phase_start input) h
    omega
  · rcases complete_or_hanging hsize hcap hphase halive hstop with hc | ⟨printed, line, rest, hh⟩
    · rwa [if_pos hc.answerable]
    · rw [if_neg]
      · exact ⟨printed, line, rest, hh⟩
      · intro hall
        exact hh.not_answerable (hall line (by rw [hh.lines]; simp))

/-- When both have ended, nothing can happen. -/
lemma stopped_of_returned (hc : s.client = .returned) (hs : s.server = .returned) :
    Stopped size capacity s := by
  intro a t h
  cases h <;> simp_all [StrEcho.closed]

theorem session_ends_sample : ∃ (acts : List Act) (s : Session),
    acts.countP (· ≠ .interrupted) ≤ 14 ∧
    (if ∀ x ∈ inputLines 3 [104, 10], Answerable 3 x then Complete 3 [104, 10] s
      else ∃ printed line rest, Hanging 3 [104, 10] printed line rest s) := by
  obtain ⟨acts, s, h, hc, hs⟩ := sample_run
  obtain ⟨hbound, hends⟩ := session_ends (by decide) (by decide) h
  exact ⟨acts, s, hbound, hends (by simp [hs]) (stopped_of_returned hc hs)⟩

end CppExample.Echo.StopAndWait
