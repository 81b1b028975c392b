/-
# The echo clients forward everything

What a client does is a conversation: blocks of a `read` and the `write` that belongs to it,
and at most once, between two blocks, the end of the input.  After it there are blocks of the
socket only: `Talks`.  Each version of `str_cli` keeps to this, since each keeps the end of the
input from being reported a second time, in its own way.

All that is said about the calls of a client follows from the shape of the conversation:
`Talks.forwards`.
-/
import CppExample.Echo.Clients

namespace CppExample.Echo.Client
open EpollServer (ReadResult)

/-! ## Conversations -/

/-- A `read` with data, and the `write` that belongs to it. -/
inductive Block where
  | socket (bytes : List UInt8)
  | stdin (bytes : List UInt8)

def Block.acts : Block → List Act
  | socket bytes => [.readSocket (some bytes), .writeStdout bytes]
  | stdin bytes => [.readStdin (some bytes), .writen bytes]

/-- The calls for some blocks. -/
def blocks (bs : List Block) : List Act := bs.flatMap Block.acts

/-- The calls of a client that goes on, before and after the end of the input. -/
def Talks (log : List Act) : Bool → Prop
  | false => ∃ before, log = blocks before
  | true => ∃ (before : List Block) (after : List (List UInt8)),
      log = blocks before ++ .readStdin none :: .shutdown :: blocks (after.map Block.socket)

lemma blocks_append (bs bs' : List Block) : blocks (bs ++ bs') = blocks bs ++ blocks bs' :=
  List.flatMap_append

variable {log : List Act} {ended : Bool} {bytes : List UInt8}

lemma Talks.socket (h : Talks log ended) (bytes : List UInt8) :
    Talks (log ++ [.readSocket (some bytes), .writeStdout bytes]) ended := by
  cases ended with
  | false =>
    obtain ⟨before, rfl⟩ := h
    refine ⟨before ++ [.socket bytes], ?_⟩
    rw [blocks_append]
    rfl
  | true =>
    obtain ⟨before, after, rfl⟩ := h
    refine ⟨before, after ++ [bytes], ?_⟩
    rw [List.map_append, blocks_append, List.append_assoc]
    rfl

lemma Talks.stdin (h : Talks log false) (bytes : List UInt8) :
    Talks (log ++ [.readStdin (some bytes), .writen bytes]) false := by
  obtain ⟨before, rfl⟩ := h
  refine ⟨before ++ [.stdin bytes], ?_⟩
  rw [blocks_append]
  rfl

lemma Talks.eof (h : Talks log false) : Talks (log ++ [.readStdin none, .shutdown]) true := by
  obtain ⟨before, rfl⟩ := h
  exact ⟨before, [], rfl⟩

/-! ## What the calls say -/

/-- The data that was read from the socket. -/
def received (log : List Act) : List UInt8 :=
  log.flatMap fun
    | .readSocket (some bytes) => bytes
    | _ => []

/-- The data that was written to the terminal. -/
def shown (log : List Act) : List UInt8 :=
  log.flatMap fun
    | .writeStdout bytes => bytes
    | _ => []

/-- The data that was read from the terminal. -/
def typed (log : List Act) : List UInt8 :=
  log.flatMap fun
    | .readStdin (some bytes) => bytes
    | _ => []

/-- The data that was written to the socket. -/
def sent (log : List Act) : List UInt8 :=
  log.flatMap fun
    | .writen bytes => bytes
    | _ => []

/-- Everything is forwarded, and nothing is read from the terminal or written to the socket after
the end of the input, which is followed by the only `shutdown`. -/
structure Forwards (log : List Act) : Prop where
  shown : shown log = received log
  sent : sent log = typed log
  input : ∀ l₁ l₂, log = l₁ ++ .readStdin none :: l₂ → ∀ result, .readStdin result ∉ l₂
  once : log.count .shutdown ≤ 1
  follows : ∀ l₁ l₂, log = l₁ ++ .readStdin none :: l₂ → l₂.head? = some .shutdown
  reason : ∀ l₁ l₂, log = l₁ ++ .shutdown :: l₂ → l₁.getLast? = some (.readStdin none)
  quiet : ∀ l₁ l₂, log = l₁ ++ .shutdown :: l₂ → ∀ bytes, .writen bytes ∉ l₂

/-- As much was written as was read. -/
def Balanced (log : List Act) : Prop := Client.shown log = received log ∧ sent log = typed log

lemma Balanced.append {l l' : List Act} (h : Balanced l) (h' : Balanced l') :
    Balanced (l ++ l') := by
  constructor
  · rw [shown, List.flatMap_append, received, List.flatMap_append]
    exact congrArg₂ (· ++ ·) h.1 h'.1
  · rw [sent, List.flatMap_append, typed, List.flatMap_append]
    exact congrArg₂ (· ++ ·) h.2 h'.2

lemma balanced_blocks (bs : List Block) : Balanced (blocks bs) := by
  induction bs with
  | nil => exact ⟨rfl, rfl⟩
  | cons b bs ih =>
    refine Balanced.append ?_ ih
    cases b <;> exact ⟨rfl, rfl⟩

lemma mem_blocks {bs : List Block} {a : Act} (h : a ∈ blocks bs) : ∃ b ∈ bs, a ∈ b.acts :=
  List.mem_flatMap.1 h

/-- In the blocks no input ends. -/
lemma notMem_blocks {bs : List Block} {a : Act}
    (ha : a = .readStdin none ∨ a = .shutdown ∨ a = .readSocket none) : a ∉ blocks bs := by
  intro h
  obtain ⟨b, -, hb⟩ := mem_blocks h
  rcases ha with rfl | rfl | rfl <;> cases b <;> simp [Block.acts] at hb

/-- The blocks of the socket have nothing to do with the terminal. -/
lemma mem_socket_blocks {after : List (List UInt8)} {a : Act}
    (h : a ∈ blocks (after.map Block.socket)) :
    ∃ bytes, a = .readSocket (some bytes) ∨ a = .writeStdout bytes := by
  obtain ⟨b, hb, ha⟩ := mem_blocks h
  obtain ⟨bytes, -, rfl⟩ := List.mem_map.1 hb
  refine ⟨bytes, ?_⟩
  simpa [Block.acts] using ha

/-- A list is split in one way only at an entry that it has once. -/
lemma append_cons_inj {α : Type*} {x : α} {l l' l₁ l₂ : List α} (hl : x ∉ l) (hl' : x ∉ l')
    (h : l ++ x :: l' = l₁ ++ x :: l₂) : l₁ = l ∧ l₂ = l' := by
  rcases List.append_eq_append_iff.1 h with ⟨a, rfl, ha⟩ | ⟨a, rfl, ha⟩
  · cases a with
    | nil => simpa using ha.symm
    | cons y a =>
      rw [List.cons_append, List.cons.injEq] at ha
      exact absurd (by rw [ha.2]; simp) hl'
  · cases a with
    | nil => simpa using ha
    | cons y a =>
      rw [List.cons_append, List.cons.injEq] at ha
      exact absurd (by simp [ha.1]) hl

/-- Before the end of the input. -/
lemma forwards_open {l : List Act} (hdata : Balanced l) (hin : .readStdin none ∉ l)
    (hout : .shutdown ∉ l) : Forwards l := by
  have hnot : ∀ {a l₁ l₂}, a ∉ l → l ≠ l₁ ++ a :: l₂ := by
    rintro a l₁ l₂ ha rfl
    simp at ha
  refine ⟨hdata.1, hdata.2, fun _ _ heq => absurd heq (hnot hin), ?_,
    fun _ _ heq => absurd heq (hnot hin), fun _ _ heq => absurd heq (hnot hout),
    fun _ _ heq => absurd heq (hnot hout)⟩
  rw [List.count_eq_zero_of_not_mem hout]
  exact Nat.zero_le _

/-- After the end of the input. -/
lemma forwards_ended {l l' : List Act} (hdata : Balanced l) (hdata' : Balanced l')
    (hin : .readStdin none ∉ l) (hout : .shutdown ∉ l) (hin' : ∀ result, .readStdin result ∉ l')
    (hout' : .shutdown ∉ l') (hquiet : ∀ bytes, .writen bytes ∉ l') :
    Forwards (l ++ .readStdin none :: .shutdown :: l') := by
  have hin₂ : .readStdin none ∉ Act.shutdown :: l' := by simp [hin']
  have hout₂ : .shutdown ∉ l ++ [Act.readStdin none] := by simp [hout]
  have hreassoc : l ++ .readStdin none :: .shutdown :: l'
      = (l ++ [.readStdin none]) ++ .shutdown :: l' := by simp
  have hdata₂ : Balanced (.readStdin none :: .shutdown :: l') :=
    Balanced.append (show Balanced [.readStdin none, .shutdown] from ⟨rfl, rfl⟩) hdata'
  obtain ⟨hshown, hsent⟩ := hdata.append hdata₂
  refine ⟨hshown, hsent, fun l₁ l₂ heq result => ?_, ?_, fun l₁ l₂ heq => ?_,
    fun l₁ l₂ heq => ?_, fun l₁ l₂ heq bytes => ?_⟩
  · obtain ⟨-, rfl⟩ := append_cons_inj hin hin₂ heq
    simp [hin']
  · rw [hreassoc, List.count_append, List.count_cons_self,
      List.count_eq_zero_of_not_mem hout₂, List.count_eq_zero_of_not_mem hout']
  · obtain ⟨-, rfl⟩ := append_cons_inj hin hin₂ heq
    rfl
  · rw [hreassoc] at heq
    obtain ⟨rfl, -⟩ := append_cons_inj hout₂ hout' heq
    simp
  · rw [hreassoc] at heq
    obtain ⟨-, rfl⟩ := append_cons_inj hout₂ hout' heq
    exact hquiet bytes

/-- The calls of a client, also of one whose last call was the end of the socket. -/
lemma Talks.forwards (h : Talks log ended) {tail : List Act}
    (htail : tail = [] ∨ tail = [.readSocket none]) : Forwards (log ++ tail) := by
  have hdata : Balanced tail := by
    rcases htail with rfl | rfl <;> exact ⟨rfl, rfl⟩
  have hmem : ∀ a, a ≠ .readSocket none → a ∉ tail := by
    rcases htail with rfl | rfl <;> simp
  cases ended with
  | false =>
    obtain ⟨before, rfl⟩ := h
    refine forwards_open ((balanced_blocks before).append hdata) ?_ ?_
    · simp [notMem_blocks, hmem]
    · simp [notMem_blocks, hmem]
  | true =>
    obtain ⟨before, after, rfl⟩ := h
    rw [List.append_assoc, List.cons_append, List.cons_append]
    refine forwards_ended (balanced_blocks before) ((balanced_blocks _).append hdata)
      (notMem_blocks (by simp)) (notMem_blocks (by simp)) (fun result hin => ?_) (fun hin => ?_)
      (fun bytes hin => ?_)
    all_goals
      rcases List.mem_append.1 hin with hin | hin
      · obtain ⟨bytes, heq | heq⟩ := mem_socket_blocks hin <;> cases heq
      · exact hmem _ (by simp) hin

lemma Talks.notMem_readSocket (h : Talks log ended) : .readSocket none ∉ log := by
  cases ended with
  | false =>
    obtain ⟨before, rfl⟩ := h
    exact notMem_blocks (by simp)
  | true =>
    obtain ⟨before, after, rfl⟩ := h
    simp [notMem_blocks]

lemma Talks.mem_readStdin (h : Talks log ended) : .readStdin none ∈ log ↔ ended = true := by
  cases ended with
  | false =>
    obtain ⟨before, rfl⟩ := h
    simp [notMem_blocks]
  | true =>
    obtain ⟨before, after, rfl⟩ := h
    simp

/-! ## All versions -/

/-- What should be so wherever a run has come to: everything is forwarded, and `str_cli` returns
at the first end of the socket if the input has ended before, and quits if it has not. -/
def RunOk : Progress Io → Prop
  | .next io => Forwards io.log ∧ .readSocket none ∉ io.log
  | .returned io => Forwards io.log ∧ ∃ l, io.log = l ++ [.readSocket none] ∧
      .readSocket none ∉ l ∧ .readStdin none ∈ l
  | .errQuit io => Forwards io.log ∧ ∃ l, io.log = l ++ [.readSocket none] ∧
      .readSocket none ∉ l ∧ .readStdin none ∉ l
  | .outOfRange io => Forwards io.log

/-- A client that keeps to a conversation, and to `P` if it goes on. -/
def Keeps {S : Type} (toIo : S → Io) (P : S → Prop) : Progress S → Prop
  | .next s => Talks (toIo s).log (toIo s).stdineof ∧ P s
  | .returned io => ∃ l, io.log = l ++ [.readSocket none] ∧ Talks l true
  | .errQuit io => ∃ l, io.log = l ++ [.readSocket none] ∧ Talks l false
  | .outOfRange io => Talks io.log io.stdineof

/-- The states of a run, without what is different in the versions. -/
def Progress.io {S : Type} (toIo : S → Io) (p : Progress S) : Progress Io :=
  p.bind fun s => .next (toIo s)

variable {S T : Type} {toIo : S → Io} {P : S → Prop} {p : Progress S}

lemma Keeps.runOk (h : Keeps toIo P p) : RunOk (p.io toIo) := by
  cases p with
  | next s =>
    refine ⟨?_, h.1.notMem_readSocket⟩
    simpa using h.1.forwards (Or.inl rfl)
  | returned io =>
    obtain ⟨l, hlog, hl⟩ := h
    refine ⟨?_, l, hlog, hl.notMem_readSocket, hl.mem_readStdin.2 rfl⟩
    rw [hlog]
    exact hl.forwards (Or.inr rfl)
  | errQuit io =>
    obtain ⟨l, hlog, hl⟩ := h
    refine ⟨?_, l, hlog, hl.notMem_readSocket, fun hin => ?_⟩
    · rw [hlog]
      exact hl.forwards (Or.inr rfl)
    · cases hl.mem_readStdin.1 hin
  | outOfRange io => simpa [RunOk, Progress.io, Progress.bind] using Talks.forwards h (Or.inl rfl)

/-- One part after another. -/
lemma Keeps.bind {toIo' : T → Io} {Q : T → Prop} {f : S → Progress T} (h : Keeps toIo P p)
    (hf : ∀ s, Talks (toIo s).log (toIo s).stdineof → P s → Keeps toIo' Q (f s)) :
    Keeps toIo' Q (p.bind f) := by
  cases p with
  | next s => exact hf s h.1 h.2
  | returned io => exact h
  | errQuit io => exact h
  | outOfRange io => exact h

/-- All rounds. -/
lemma Keeps.run {I : Type} {round : S → I → Progress S} (is : List I)
    (hround : ∀ s i, i ∈ is → Talks (toIo s).log (toIo s).stdineof → P s →
      Keeps toIo P (round s i)) {s : S}
    (h : Talks (toIo s).log (toIo s).stdineof) (hP : P s) :
    Keeps toIo P (Progress.run round is s) := by
  induction is generalizing s with
  | nil => exact ⟨h, hP⟩
  | cons i is ih =>
    refine (hround s i List.mem_cons_self h hP).bind fun t ht hPt => ?_
    exact ih (fun s j hj => hround s j (List.mem_cons_of_mem _ hj)) ht hPt

/-- The socket is readable. -/
lemma keeps_onSocket {io : Io} (h : Talks io.log io.stdineof) (r : ReadResult) :
    Keeps id (fun io' => io'.stdineof = io.stdineof) (io.onSocket r) := by
  cases r with
  | closed =>
    rw [Io.onSocket]
    dsimp only
    split
    · next heof => exact ⟨io.log, rfl, heof ▸ h⟩
    · next heof => exact ⟨io.log, rfl, (Bool.eq_false_iff.2 heof) ▸ h⟩
  | data bytes => exact ⟨h.socket bytes, rfl⟩

/-- The socket may be readable. -/
lemma keeps_socket {io : Io} (h : Talks io.log io.stdineof) (r : ReadResult) (c : Prop)
    [Decidable c] :
    Keeps id (fun io' => io'.stdineof = io.stdineof) (if c then io.onSocket r else .next io) := by
  split
  · exact keeps_onSocket h r
  · exact ⟨h, rfl⟩

/-- The terminal is readable, and the input has not ended. -/
lemma talks_onStdin {io : Io} (h : Talks io.log io.stdineof) (heof : io.stdineof = false)
    (r : ReadResult) : Talks (io.onStdin r).log (io.onStdin r).stdineof := by
  rw [heof] at h
  cases r with
  | closed => exact h.eof
  | data bytes =>
    rw [Io.onStdin]
    dsimp only
    rw [heof]
    exact h.stdin bytes

/-- The input does not end with data. -/
lemma stdineof_data {io : Io} (h : io.stdineof = false) (bytes : List UInt8) :
    (io.onStdin (.data bytes)).stdineof ≠ true := by
  rw [Io.onStdin]
  dsimp only
  rw [h]
  exact Bool.false_ne_true

namespace SelectVersion

/-- After the end of the input, `stdin` is not in the set any more. -/
def Silent (fds : Fds) (s : State) : Prop := s.stdineof = true → fds.stdin ∉ s.rset

lemma stdin_notMem_watched {fds : Fds} {s : State} (h : Silent fds s) (heof : s.stdineof = true) :
    fds.stdin ∉ s.watched fds := by
  rw [State.watched, if_pos heof, Finset.mem_insert, not_or]
  exact ⟨fds.ne, h heof⟩

lemma keeps_round {fds : Fds} {s : State} (h : Talks s.log s.stdineof) (hs : Silent fds s)
    (i : Finset ℤ × Replies) : Keeps State.toIo (Silent fds) (round fds s i) := by
  rw [round]
  split
  · refine (keeps_socket h i.2.socket _).bind fun io hio heof => ?_
    dsimp only [id] at hio
    -- the terminal is reported only if the input has not ended
    have hin : fds.stdin ∈ s.watched fds ∩ i.1 → s.stdineof = false := by
      intro hmem
      by_contra hne
      exact stdin_notMem_watched hs (Bool.eq_true_of_not_eq_false hne) (Finset.mem_inter.1 hmem).1
    split
    · next hmem =>
      have hopen : io.stdineof = false := heof.trans (hin hmem)
      split
      · exact ⟨talks_onStdin hio hopen .closed, fun _ => Finset.notMem_erase _ _⟩
      · next bytes _ =>
        exact ⟨talks_onStdin hio hopen (.data bytes),
          fun hend => absurd hend (stdineof_data hopen bytes)⟩
    · next hmem => exact ⟨hio, fun _ => hmem⟩
  · exact h

end SelectVersion

namespace PollVersion

/-- After the end of the input, the first entry is ignored. -/
def Silent (s : State) : Prop := s.stdineof = true → s.terminal.fd < 0

lemma not_readable_of_neg {e : PollServer.PollFd} (h : e.fd < 0) (revents : UInt16) :
    (polled e revents).readable = false := by
  rw [polled, if_pos h]
  show ((0 : UInt16) &&& PollServer.pollrdnorm != 0) = false
  decide

lemma keeps_round {s : State} (h : Talks s.log s.stdineof) (hs : Silent s)
    (i : (UInt16 × UInt16) × Replies) : Keeps State.toIo Silent (round s i) := by
  rw [round]
  refine (keeps_socket h i.2.socket _).bind fun io hio heof => ?_
  dsimp only [id] at hio
  have hin : (polled s.terminal i.1.1).readable = true → s.stdineof = false := by
    intro hread
    by_contra hne
    rw [not_readable_of_neg (hs (Bool.eq_true_of_not_eq_false hne))] at hread
    cases hread
  split
  · next hread =>
    have hopen : io.stdineof = false := heof.trans (hin hread)
    split
    · exact ⟨talks_onStdin hio hopen .closed, fun _ => Int.negSucc_lt_zero 0⟩
    · next bytes _ =>
      exact ⟨talks_onStdin hio hopen (.data bytes),
        fun hend => absurd hend (stdineof_data hopen bytes)⟩
  · exact ⟨hio, fun hend => hs (heof.symm.trans hend)⟩

end PollVersion

namespace EpollVersion

/-- After the end of the input, `stdin` is not in the epoll set any more. -/
def Silent (fds : Fds) (s : State) : Prop := s.stdineof = true → fds.stdin ∉ s.interest

/-- An event that is not for `stdin` if the input has ended. -/
lemma keeps_handle {fds : Fds} {s : State} (h : Talks s.log s.stdineof) (hs : Silent fds s)
    {e : Event} (he : s.stdineof = true → e.fd ≠ fds.stdin) :
    Keeps State.toIo (fun t => Silent fds t ∧ (t.stdineof = true → s.stdineof = false →
      e.fd = fds.stdin)) (handle fds s e) := by
  rw [handle]
  refine (keeps_socket h e.result _).bind fun io hio heof => ?_
  dsimp only [id] at hio
  split
  · next hev =>
    have hopen : io.stdineof = false := by
      rw [heof]
      by_contra hne
      exact he (Bool.eq_true_of_not_eq_false hne) hev.1
    split
    · exact ⟨talks_onStdin hio hopen .closed, fun _ => Finset.notMem_erase _ _, fun _ _ => hev.1⟩
    · next bytes _ =>
      have hfalse := stdineof_data hopen bytes
      exact ⟨talks_onStdin hio hopen (.data bytes), fun hend => absurd hend hfalse,
        fun hend => absurd hend hfalse⟩
  · refine ⟨hio, fun hend => hs (heof.symm.trans hend), fun hend hopen => ?_⟩
    have hend' : io.stdineof = true := hend
    rw [heof, hopen] at hend'
    cases hend'

/-- The events of a batch. -/
lemma keeps_events {fds : Fds} {es : List Event} (hnodup : (es.map Event.fd).Nodup) {s : State}
    (h : Talks s.log s.stdineof) (hs : Silent fds s)
    (hes : s.stdineof = true → ∀ e ∈ es, e.fd ≠ fds.stdin) :
    Keeps State.toIo (Silent fds) (Progress.run (handle fds) es s) := by
  induction es generalizing s with
  | nil => exact ⟨h, hs⟩
  | cons e es ih =>
    rw [List.map_cons, List.nodup_cons] at hnodup
    refine (keeps_handle h hs fun heof => hes heof e List.mem_cons_self).bind ?_
    rintro t ht ⟨hst, hend⟩
    refine ih hnodup.2 ht hst fun heof e' he' heq => ?_
    -- the input has ended before, or with this event, and no other is for the same descriptor
    by_cases hopen : s.stdineof = true
    · exact hes hopen e' (List.mem_cons_of_mem _ he') heq
    · have hfd := hend heof (Bool.eq_false_iff.2 hopen)
      exact hnodup.1 (List.mem_map.2 ⟨e', he', heq.trans hfd.symm⟩)

lemma keeps_round {fds : Fds} {s : State} (h : Talks s.log s.stdineof) (hs : Silent fds s)
    (b : Batch) : Keeps State.toIo (Silent fds) (round fds s b) := by
  refine keeps_events (b.nodup.sublist (List.filter_sublist.map _)) h hs fun heof e he heq => ?_
  have hin := of_decide_eq_true (List.mem_filter.1 he).2
  rw [heq] at hin
  exact hs heof hin

end EpollVersion

/-- **The clients forward everything, and stop at the right time.**  This is so for the versions
with `select`, `poll` and `epoll`, whatever is ready in the rounds and whatever is read. -/
theorem clients_forward (fds : Fds) :
    (∀ rounds : List (Finset ℤ × Replies), RunOk
      ((Progress.run (SelectVersion.round fds) rounds SelectVersion.State.start).io
        SelectVersion.State.toIo)) ∧
    (∀ (garbage : UInt16 × UInt16) (rounds : List ((UInt16 × UInt16) × Replies)), RunOk
      ((Progress.run PollVersion.round rounds (PollVersion.State.start fds garbage)).io
        PollVersion.State.toIo)) ∧
    ∀ batches : List EpollVersion.Batch, RunOk
      ((Progress.run (EpollVersion.round fds) batches (EpollVersion.State.start fds)).io
        EpollVersion.State.toIo) := by
  have hstart : Talks Io.start.log Io.start.stdineof := ⟨[], rfl⟩
  refine ⟨fun rounds => ?_, fun garbage rounds => ?_, fun batches => ?_⟩
  · refine (Keeps.run rounds (fun s i _ h hs => SelectVersion.keeps_round h hs i) hstart ?_).runOk
    rintro ⟨⟩
  · refine (Keeps.run rounds (fun s i _ h hs => PollVersion.keeps_round h hs i) hstart ?_).runOk
    rintro ⟨⟩
  · refine (Keeps.run batches (fun s b _ h hs => EpollVersion.keeps_round h hs b) hstart ?_).runOk
    rintro ⟨⟩

end CppExample.Echo.Client
