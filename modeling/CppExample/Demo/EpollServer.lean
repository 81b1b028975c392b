/-
# The epoll demo server

The main loop of `network/demo3_epoll.cpp`, which `network/demo4_c1000k_server.cpp` was made
from: the events and the answers of the kernel are those of the latter.  Here all clients
share `rbuffer` and `wbuffer`, and no connection is ever closed.

A client is sent what is in `wbuffer` when it can be written to, whoever has sent it.  Which
client has written a byte of the buffer last is a matter of the descriptors and lengths of
the calls of `recv` (`writer`), and what a client is sent does not depend on what the others
have sent if and only if, whenever it is sent something, no byte of the buffer is another
client's: `isolated_iff_ownSends`.

What the server prints is left out.
-/
import CppExample.C1000k.Isolation

namespace CppExample.Demo.EpollServer
open Lib
open C1000k (Event RecvResult Reply Act Input epollMod messages replies)

/-- `BUFFER_LENGTH`. -/
def bufferLength : ℕ := 8192

/-- What a descriptor is registered for. -/
structure Interest where
  epollin : Bool
  epollout : Bool
  epollet : Bool
deriving DecidableEq, Repr

/-- The server, with what the kernel knows of it. -/
structure State where
  rbuffer : List UInt8
  wbuffer : List UInt8
  /-- The accepted connections. -/
  conns : Finset ℤ
  /-- The interest set of `epfd`. -/
  interest : ℤ → Option Interest
  /-- The events of the current batch that are still to be handled; none when the server is
  at `epoll_wait`. -/
  batch : List Event
  /-- The successful calls of `recv`, and the calls of `send`, with their descriptors. -/
  calls : List (ℤ × Act)

variable (listenfd : ℤ)

/-- The server before its loop. -/
def State.start : State where
  rbuffer := List.replicate bufferLength 0
  wbuffer := List.replicate bufferLength 0
  conns := ∅
  interest := Function.update (fun _ => none) listenfd (some ⟨true, false, false⟩)
  batch := []
  calls := []

/-- The body of the inner loop.  When `accept` fails, the rest of the batch is abandoned. -/
def handle (s : State) (e : Event) (r : Reply) : State :=
  if listenfd = e.fd then
    match r.accept with
    | none => { s with batch := [] }
    | some clientfd => { s with
        conns := insert clientfd s.conns
        interest := Function.update s.interest clientfd (some ⟨true, false, true⟩) }
  else if e.epollin then
    match r.recv with
    | .data bytes => { s with
        rbuffer := bytes ++ s.rbuffer.drop bytes.length
        -- all of `rbuffer` is copied
        wbuffer := bytes ++ s.rbuffer.drop bytes.length
        interest := epollMod s.interest e.fd ⟨false, true, false⟩
        calls := s.calls ++ [(e.fd, .recv bytes)] }
    | .eof => s
    | .error => s
  else if e.epollout then { s with
    interest := epollMod s.interest e.fd ⟨true, false, false⟩
    calls := s.calls ++ [(e.fd, .send s.wbuffer (s.wbuffer.take r.send.toNat))] }
  else s

/-- What the kernel may answer: a new descriptor is not open, and `recv` fills at most the
buffer. -/
structure Answers (s : State) (r : Reply) : Prop where
  accept : ∀ c, r.accept = some c → 0 ≤ c ∧ c ≠ listenfd ∧ c ∉ s.conns
  recv : ∀ bytes, r.recv = .data bytes → bytes ≠ [] ∧ bytes.length ≤ bufferLength

/-- What `epoll_wait` may report: registered descriptors, each at most once, with `EPOLLIN`
or `EPOLLOUT` only when it is registered for that. -/
structure Reportable (s : State) (events : List Event) : Prop where
  registered : ∀ e ∈ events, (s.interest e.fd).isSome
  epollin : ∀ e ∈ events, e.epollin = true → ∀ i, s.interest e.fd = some i → i.epollin = true
  epollout : ∀ e ∈ events, e.epollout = true → ∀ i, s.interest e.fd = some i → i.epollout = true
  nodup : (events.map Event.fd).Nodup
  length : events.length ≤ 128

/-- A step of the server, with what the kernel contributes to it. -/
inductive Takes : Input → State → State → Prop
  /-- `epoll_wait` returns a batch of events; an empty one when it fails. -/
  | wait {s : State} {events : List Event} (hb : s.batch = []) (hev : Reportable s events) :
      Takes (.wait events) s { s with batch := events }
  /-- The next event is handled. -/
  | handle {s : State} {e : Event} {rest : List Event} {r : Reply} (hb : s.batch = e :: rest)
      (hr : Answers listenfd s r) :
      Takes (.handle r) s (handle listenfd { s with batch := rest } e r)

/-- The calls for one client. -/
def State.log (s : State) (c : ℤ) : List Act := (s.calls.filter (·.1 = c)).map Prod.snd

/-! ## Whose bytes are in the buffer -/

/-- Who has written byte `i`, after a further call. -/
def writerAfter (i : ℕ) (w : Option ℤ) (call : ℤ × Act) : Option ℤ :=
  match call.2 with
  | .recv bytes => if i < bytes.length then some call.1 else w
  | .send _ _ => w

/-- The client whose message has last overwritten byte `i` of the buffer. -/
def writer (calls : List (ℤ × Act)) (i : ℕ) : Option ℤ := calls.foldl (writerAfter i) none

/-- Every byte of the buffer is the client's, or was never written. -/
def Own (c : ℤ) (calls : List (ℤ × Act)) : Prop := ∀ i fd, writer calls i = some fd → fd = c

/-- Whenever the client was sent something, every byte of the buffer was its own, or was never
written. -/
def OwnSends (c : ℤ) (calls : List (ℤ × Act)) : Prop :=
  ∀ l given transferred, l ++ [(c, Act.send given transferred)] <+: calls → Own c l

@[simp] lemma writer_snoc (calls : List (ℤ × Act)) (call : ℤ × Act) (i : ℕ) :
    writer (calls ++ [call]) i = writerAfter i (writer calls i) call := by
  simp [writer]

lemma ownSends_nil (c : ℤ) : OwnSends c [] := by
  intro l given transferred hpre
  simp at hpre

lemma ownSends_snoc {c : ℤ} {calls : List (ℤ × Act)} {call : ℤ × Act} :
    OwnSends c (calls ++ [call]) ↔ OwnSends c calls ∧
      ∀ given transferred, call = (c, .send given transferred) → Own c calls := by
  constructor
  · refine fun h => ⟨fun l given transferred hpre => ?_, fun given transferred hcall => ?_⟩
    · exact h l given transferred (hpre.trans (List.prefix_append _ _))
    · exact h calls given transferred (by rw [hcall])
  · rintro ⟨h, hlast⟩ l given transferred hpre
    rcases List.prefix_concat_iff.1 hpre with heq | hpre
    · obtain ⟨rfl, hcall⟩ := List.append_inj' heq rfl
      exact hlast given transferred (List.singleton_inj.1 hcall).symm
    · exact h l given transferred hpre

/-! ## Two runs -/

variable {listenfd} {s s' t t' : State} {c : ℤ}

/-- The two runs are at the same place. -/
structure State.Alike (s s' : State) : Prop where
  conns : s.conns = s'.conns
  interest : s.interest = s'.interest
  batch : s.batch = s'.batch
  copied : s.wbuffer = s.rbuffer ∧ s'.wbuffer = s'.rbuffer

/-- What two runs do that are at the same place. -/
inductive Both (s s' : State) (fd : ℤ) (r r' : Reply) : State → State → Prop
  /-- No byte is received or sent. -/
  | quiet {t t' : State} (hc : t.calls = s.calls) (hc' : t'.calls = s'.calls)
      (hw : t.wbuffer = s.wbuffer) (hw' : t'.wbuffer = s'.wbuffer) : Both s s' fd r r' t t'
  /-- As many bytes are received. -/
  | recv {t t' : State} {bytes bytes' : List UInt8} (hr : r.recv = .data bytes)
      (hr' : r'.recv = .data bytes') (hlen : bytes.length = bytes'.length)
      (hc : t.calls = s.calls ++ [(fd, .recv bytes)])
      (hc' : t'.calls = s'.calls ++ [(fd, .recv bytes')])
      (hw : t.wbuffer = bytes ++ s.wbuffer.drop bytes.length)
      (hw' : t'.wbuffer = bytes' ++ s'.wbuffer.drop bytes'.length) : Both s s' fd r r' t t'
  /-- The buffers are sent. -/
  | send {t t' : State} {sent sent' : List UInt8}
      (hc : t.calls = s.calls ++ [(fd, .send s.wbuffer sent)])
      (hc' : t'.calls = s'.calls ++ [(fd, .send s'.wbuffer sent')])
      (hw : t.wbuffer = s.wbuffer) (hw' : t'.wbuffer = s'.wbuffer) : Both s s' fd r r' t t'

lemma alike_start : (State.start listenfd).Alike (State.start listenfd) :=
  ⟨rfl, rfl, rfl, rfl, rfl⟩

/-- Handling the same event, with answers that are alike. -/
lemma State.Alike.handle (h : s.Alike s') {r r' : Reply} (hr : r.Alike r') (e : Event) :
    (handle listenfd s e r).Alike (handle listenfd s' e r') ∧
      Both s s' e.fd r r' (handle listenfd s e r) (handle listenfd s' e r') := by
  obtain ⟨haccept, hrecv⟩ := hr
  by_cases hl : listenfd = e.fd
  · simp only [EpollServer.handle, hl, if_true, ← haccept]
    cases r.accept with
    | none => exact ⟨⟨h.conns, h.interest, rfl, h.copied⟩, .quiet rfl rfl rfl rfl⟩
    | some c =>
      refine ⟨⟨congrArg (insert c) h.conns, ?_, h.batch, h.copied⟩, .quiet rfl rfl rfl rfl⟩
      rw [h.interest]
  · cases hin : e.epollin with
    | true =>
      simp only [EpollServer.handle, hl, hin, if_true, if_false]
      generalize hx : r.recv = x at hrecv ⊢
      generalize hx' : r'.recv = x' at hrecv ⊢
      cases hrecv with
      | data hlen =>
        obtain ⟨hcopy, hcopy'⟩ := h.copied
        refine ⟨⟨h.conns, by rw [h.interest], h.batch, rfl, rfl⟩, .recv hx hx' hlen rfl rfl ?_ ?_⟩
        · rw [hcopy]
        · rw [hcopy']
      | eof => exact ⟨h, .quiet rfl rfl rfl rfl⟩
      | error => exact ⟨h, .quiet rfl rfl rfl rfl⟩
    | false =>
      cases hout : e.epollout with
      | true =>
        simp only [EpollServer.handle, hl, hin, hout, if_true, if_false, Bool.false_eq_true]
        exact ⟨⟨h.conns, by rw [h.interest], h.batch, h.copied⟩, .send rfl rfl rfl rfl⟩
      | false =>
        simp only [EpollServer.handle, hl, hin, hout, if_false, Bool.false_eq_true]
        exact ⟨h, .quiet rfl rfl rfl rfl⟩

lemma State.log_of_calls {call : ℤ × Act} (h : t.calls = s.calls ++ [call]) :
    t.log c = if call.1 = c then s.log c ++ [call.2] else s.log c := by
  by_cases heq : call.1 = c
  · simp [State.log, h, heq]
  · simp [State.log, h, heq]

lemma State.log_congr (h : t.calls = s.calls) : t.log c = s.log c := by
  rw [State.log, State.log, h]

/-- Byte `i` of a buffer whose beginning was overwritten. -/
lemma getElem?_overwrite (bytes buf : List UInt8) (i : ℕ) :
    (bytes ++ buf.drop bytes.length)[i]? = if i < bytes.length then bytes[i]? else buf[i]? := by
  split
  · next hi => rw [List.getElem?_append_left hi]
  · next hi =>
    rw [List.getElem?_append_right (by omega), List.getElem?_drop]
    congr 1
    omega

/-! ## When every byte that is sent is the client's own -/

/-- As far as the buffers are the client's, and its sends are, it cannot tell the runs
apart. -/
def Agree (c : ℤ) (s s' : State) : Prop :=
  OwnSends c s.calls → messages (s.log c) = messages (s'.log c) →
    replies (s.log c) = replies (s'.log c) ∧
      ∀ i, (∀ fd, writer s.calls i = some fd → fd = c) → s.wbuffer[i]? = s'.wbuffer[i]?

lemma agree_start : Agree c (State.start listenfd) (State.start listenfd) :=
  fun _ _ => ⟨rfl, fun _ _ => rfl⟩

/-- Both runs receive a message. -/
lemma Agree.recv {fd : ℤ} {bytes bytes' : List UInt8} (h : Agree c s s')
    (hlen : bytes.length = bytes'.length) (hc : t.calls = s.calls ++ [(fd, Act.recv bytes)])
    (hc' : t'.calls = s'.calls ++ [(fd, Act.recv bytes')])
    (hw : t.wbuffer = bytes ++ s.wbuffer.drop bytes.length)
    (hw' : t'.wbuffer = bytes' ++ s'.wbuffer.drop bytes'.length) : Agree c t t' := by
  intro hown hmsg
  rw [hc, ownSends_snoc] at hown
  rw [State.log_of_calls hc, State.log_of_calls hc'] at hmsg ⊢
  -- the messages before this one are the same, and so is this one if it is the client's
  have hbefore : messages (s.log c) = messages (s'.log c) ∧ (fd = c → bytes = bytes') := by
    by_cases heq : fd = c
    · rw [if_pos heq, if_pos heq, C1000k.messages_append, C1000k.messages_append] at hmsg
      obtain ⟨hmsg, hlast⟩ := List.append_inj' hmsg rfl
      exact ⟨hmsg, fun _ => List.head_eq_of_cons_eq hlast⟩
    · rw [if_neg heq, if_neg heq] at hmsg
      exact ⟨hmsg, fun h => absurd h heq⟩
  obtain ⟨hreplies, hbuf⟩ := h hown.1 hbefore.1
  constructor
  · by_cases heq : fd = c
    · simpa [heq, replies] using hreplies
    · simpa [heq] using hreplies
  · intro i hi
    rw [hc, writer_snoc, writerAfter] at hi
    rw [hw, hw', getElem?_overwrite, getElem?_overwrite, ← hlen]
    by_cases hlt : i < bytes.length
    · simp only [if_pos hlt] at hi ⊢
      rw [hbefore.2 (hi fd rfl)]
    · simp only [if_neg hlt] at hi ⊢
      exact hbuf i hi

/-- Both runs send their buffers. -/
lemma Agree.send {fd : ℤ} {sent sent' : List UInt8} (h : Agree c s s')
    (hc : t.calls = s.calls ++ [(fd, Act.send s.wbuffer sent)])
    (hc' : t'.calls = s'.calls ++ [(fd, Act.send s'.wbuffer sent')])
    (hw : t.wbuffer = s.wbuffer) (hw' : t'.wbuffer = s'.wbuffer) : Agree c t t' := by
  intro hown hmsg
  rw [hc, ownSends_snoc] at hown
  rw [State.log_of_calls hc, State.log_of_calls hc'] at hmsg ⊢
  have hbefore : messages (s.log c) = messages (s'.log c) := by
    by_cases heq : fd = c
    · simpa [heq, messages] using hmsg
    · simpa [heq] using hmsg
  obtain ⟨hreplies, hbuf⟩ := h hown.1 hbefore
  refine ⟨?_, fun i hi => ?_⟩
  · by_cases heq : fd = c
    · subst heq
      have hall : s.wbuffer = s'.wbuffer := by
        ext1 i
        exact hbuf i fun fd' => hown.2 s.wbuffer sent rfl i fd'
      simp [hreplies, replies, hall]
    · simpa [heq] using hreplies
  · rw [hw, hw']
    rw [hc, writer_snoc] at hi
    exact hbuf i hi

lemma Both.agree {fd : ℤ} {r r' : Reply} (h : Both s s' fd r r' t t') (hs : Agree c s s') :
    Agree c t t' := by
  cases h with
  | quiet hc hc' hw hw' =>
    rw [Agree, hc, hw, hw', State.log_congr hc, State.log_congr hc']
    exact hs
  | recv hr hr' hlen hc hc' hw hw' => exact hs.recv hlen hc hc' hw hw'
  | send hc hc' hw hw' => exact hs.send hc hc' hw hw'

lemma Takes.alike {i i' : Input} (hi : i.Alike i') (h : Takes listenfd i s t)
    (h' : Takes listenfd i' s' t') (halike : s.Alike s') (hagree : Agree c s s') :
    t.Alike t' ∧ Agree c t t' := by
  cases hi with
  | wait events =>
    cases h
    cases h'
    exact ⟨⟨halike.conns, halike.interest, rfl, halike.copied⟩, hagree⟩
  | handle hr =>
    cases h with
    | @handle _ e rest r hb _ =>
      cases h' with
      | @handle _ e' rest' r' hb' _ =>
        have hbatch := halike.batch
        rw [hb, hb'] at hbatch
        cases hbatch
        have hrest : ({ s with batch := rest } : State).Alike { s' with batch := rest } :=
          ⟨halike.conns, halike.interest, rfl, halike.copied⟩
        obtain ⟨halike', hboth⟩ := hrest.handle hr e
        exact ⟨halike', hboth.agree hagree⟩

/-! ## When a byte of another client is sent -/

/-- What another client sends in the second run: as many bytes, each of them changed. -/
def altered : RecvResult → RecvResult
  | .data bytes => .data (bytes.map (· + 1))
  | .eof => .eof
  | .error => .error

/-- The answers in the second run. -/
def Reply.altered (c fd : ℤ) (r : Reply) : Reply :=
  if fd = c then r else { r with recv := EpollServer.altered r.recv }

/-- The client sends the same; where the buffers are not its own, they are different. -/
structure Differ (c : ℤ) (s s' : State) : Prop where
  messages : messages (s.log c) = messages (s'.log c)
  bytes : ∀ i fd, writer s.calls i = some fd → fd ≠ c → s.wbuffer[i]? ≠ s'.wbuffer[i]?
  replies : ¬ OwnSends c s.calls → replies (s.log c) ≠ replies (s'.log c)

lemma differ_start : Differ c (State.start listenfd) (State.start listenfd) := by
  refine ⟨rfl, fun i fd hfd => ?_, fun hnot => absurd (ownSends_nil c) hnot⟩
  cases hfd

lemma getElem?_map_succ_ne {bytes : List UInt8} {i : ℕ} (hi : i < bytes.length) :
    bytes[i]? ≠ (bytes.map (· + 1))[i]? := by
  rw [List.getElem?_map, List.getElem?_eq_getElem hi, Option.map_some]
  intro heq
  have hnat := congrArg UInt8.toNat (Option.some.inj heq)
  rw [UInt8.toNat_add, UInt8.toNat_one] at hnat
  omega

/-- The first run receives a message, the second one the same or a changed one. -/
lemma Differ.recv {fd : ℤ} {bytes bytes' : List UInt8} (h : Differ c s s')
    (hown : fd = c → bytes' = bytes) (hother : fd ≠ c → bytes' = bytes.map (· + 1))
    (hc : t.calls = s.calls ++ [(fd, Act.recv bytes)])
    (hc' : t'.calls = s'.calls ++ [(fd, Act.recv bytes')])
    (hw : t.wbuffer = bytes ++ s.wbuffer.drop bytes.length)
    (hw' : t'.wbuffer = bytes' ++ s'.wbuffer.drop bytes'.length) : Differ c t t' := by
  have hlen : bytes'.length = bytes.length := by
    by_cases heq : fd = c
    · rw [hown heq]
    · rw [hother heq, List.length_map]
  refine ⟨?_, fun i fd' hfd' hne => ?_, fun hnot => ?_⟩
  · rw [State.log_of_calls hc, State.log_of_calls hc']
    by_cases heq : fd = c
    · simp [heq, h.messages, hown heq]
    · simpa [heq] using h.messages
  · rw [hc, writer_snoc, writerAfter] at hfd'
    rw [hw, hw', getElem?_overwrite, getElem?_overwrite, hlen]
    by_cases hlt : i < bytes.length
    · simp only [if_pos hlt, Option.some.injEq] at hfd' ⊢
      rw [hother (hfd' ▸ hne)]
      exact getElem?_map_succ_ne hlt
    · simp only [if_neg hlt] at hfd' ⊢
      exact h.bytes i fd' hfd' hne
  · have hbefore : ¬ OwnSends c s.calls := by
      intro hs
      refine hnot ?_
      rw [hc, ownSends_snoc]
      exact ⟨hs, fun given transferred hcall => by cases hcall⟩
    rw [State.log_of_calls hc, State.log_of_calls hc']
    by_cases heq : fd = c
    · simpa [heq, C1000k.replies] using h.replies hbefore
    · simpa [heq] using h.replies hbefore

/-- Both runs send their buffers. -/
lemma Differ.send {fd : ℤ} {sent sent' : List UInt8} (h : Differ c s s')
    (hc : t.calls = s.calls ++ [(fd, Act.send s.wbuffer sent)])
    (hc' : t'.calls = s'.calls ++ [(fd, Act.send s'.wbuffer sent')])
    (hw : t.wbuffer = s.wbuffer) (hw' : t'.wbuffer = s'.wbuffer) : Differ c t t' := by
  refine ⟨?_, fun i fd' hfd' hne => ?_, fun hnot => ?_⟩
  · rw [State.log_of_calls hc, State.log_of_calls hc']
    by_cases heq : fd = c
    · simp [heq, h.messages, C1000k.messages]
    · simpa [heq] using h.messages
  · rw [hc, writer_snoc] at hfd'
    rw [hw, hw']
    exact h.bytes i fd' hfd' hne
  · rw [State.log_of_calls hc, State.log_of_calls hc']
    rw [hc, ownSends_snoc] at hnot
    by_cases heq : fd = c
    · subst heq
      rw [if_pos rfl, if_pos rfl, C1000k.replies_append, C1000k.replies_append]
      intro hsame
      obtain ⟨hsame, hlast⟩ := List.append_inj' hsame rfl
      have hbuf : s.wbuffer = s'.wbuffer := List.head_eq_of_cons_eq hlast
      -- all earlier answers were the client's own bytes, so a byte of this one is not
      refine hnot ⟨by_contra fun hs => h.replies hs hsame, fun _ _ _ i fd' hfd' => ?_⟩
      exact by_contra fun hne => h.bytes i fd' hfd' hne (by rw [hbuf])
    · rw [if_neg heq, if_neg heq]
      refine h.replies fun hs => hnot ⟨hs, fun given transferred hcall => ?_⟩
      exact absurd (congrArg Prod.fst hcall) heq

lemma Reply.alike_altered (c fd : ℤ) (r : Reply) : r.Alike (Reply.altered c fd r) := by
  rw [Reply.altered]
  split
  · exact .refl r
  · refine ⟨rfl, ?_⟩
    generalize r.recv = x
    cases x with
    | data bytes => exact .data (List.length_map _).symm
    | eof => exact .eof
    | error => exact .error

/-- The kernel may answer so in the second run. -/
lemma Answers.altered {r : Reply} (h : Answers listenfd s r) (halike : s.Alike s') (c fd : ℤ) :
    Answers listenfd s' (Reply.altered c fd r) := by
  have haccept : (Reply.altered c fd r).accept = r.accept := by
    rw [Reply.altered]
    split <;> rfl
  refine ⟨fun d hd => ?_, fun bytes hbytes => ?_⟩
  · rw [haccept] at hd
    rw [← halike.conns]
    exact h.accept d hd
  · rw [Reply.altered] at hbytes
    split at hbytes
    · exact h.recv bytes hbytes
    · cases hr : r.recv with
      | data bytes₀ =>
        obtain ⟨hne, hle⟩ := h.recv bytes₀ hr
        simp only [EpollServer.altered, hr, RecvResult.data.injEq] at hbytes
        subst hbytes
        refine ⟨by simpa using hne, ?_⟩
        rw [List.length_map]
        exact hle
      | eof => simp [EpollServer.altered, hr] at hbytes
      | error => simp [EpollServer.altered, hr] at hbytes

lemma Both.differ {fd : ℤ} {r : Reply} (h : Both s s' fd r (Reply.altered c fd r) t t')
    (hs : Differ c s s') : Differ c t t' := by
  cases h with
  | quiet hc hc' hw hw' =>
    refine ⟨?_, ?_, ?_⟩
    · rw [State.log_congr hc, State.log_congr hc']
      exact hs.messages
    · rw [hc, hw, hw']
      exact hs.bytes
    · rw [hc, State.log_congr hc, State.log_congr hc']
      exact hs.replies
  | recv hr hr' hlen hc hc' hw hw' =>
    refine hs.recv (fun heq => ?_) (fun hne => ?_) hc hc' hw hw'
    · rw [Reply.altered, if_pos heq, hr] at hr'
      exact (RecvResult.data.inj hr').symm
    · rw [Reply.altered, if_neg hne] at hr'
      simp only [hr, EpollServer.altered, RecvResult.data.injEq] at hr'
      exact hr'.symm
  | send hc hc' hw hw' => exact hs.send hc hc' hw hw'

/-- The second run can follow the first one. -/
lemma Takes.exists_altered {i : Input} (h : Takes listenfd i s t) (halike : s.Alike s')
    (hs : Differ c s s') : ∃ i' t', i.Alike i' ∧ Takes listenfd i' s' t' ∧ t.Alike t' ∧
      Differ c t t' := by
  cases h with
  | @wait _ events hb hev =>
    obtain ⟨hreg, hin, hout, hnodup, hlen⟩ := hev
    rw [halike.interest] at hreg hin hout
    refine ⟨.wait events, { s' with batch := events }, .wait events,
      .wait (halike.batch ▸ hb) ⟨hreg, hin, hout, hnodup, hlen⟩, ?_, ?_⟩
    · exact ⟨halike.conns, halike.interest, rfl, halike.copied⟩
    · exact ⟨hs.messages, hs.bytes, hs.replies⟩
  | @handle _ e rest r hb hr =>
    have hrest : ({ s with batch := rest } : State).Alike { s' with batch := rest } :=
      ⟨halike.conns, halike.interest, rfl, halike.copied⟩
    have hsame := Reply.alike_altered c e.fd r
    obtain ⟨halike', hboth⟩ := @State.Alike.handle listenfd _ _ hrest _ _ hsame e
    refine ⟨.handle (Reply.altered c e.fd r), _, .handle hsame,
      .handle (halike.batch ▸ hb) (hr.altered halike c e.fd), halike', hboth.differ ?_⟩
    exact ⟨hs.messages, hs.bytes, hs.replies⟩

/-! ## The server -/

/-- Whatever the other clients send, in messages of the same lengths, the client is sent the
same bytes. -/
def Isolated (listenfd c : ℤ) (ins : List Input) (s : State) : Prop :=
  ∀ ins' s', List.Forall₂ Input.Alike ins ins' →
    Trace (Takes listenfd) (State.start listenfd) ins' s' →
    messages (s.log c) = messages (s'.log c) → replies (s.log c) = replies (s'.log c)

/-- **When clients are isolated.**  What a client is sent in a run does not depend on what the
others send if and only if it was only ever sent bytes of its own, and bytes that were never
written. -/
theorem isolated_iff_ownSends {ins : List Input}
    (h : Trace (Takes listenfd) (State.start listenfd) ins s) (c : ℤ) :
    Isolated listenfd c ins s ↔ OwnSends c s.calls := by
  constructor
  · intro hiso
    obtain ⟨ins', s', hins, h', -, hdiffer⟩ := Trace.exists_lockstep
      (R := fun s s' => s.Alike s' ∧ Differ c s s')
      (fun i s s' t hs hst => hst.exists_altered hs.1 hs.2) h ⟨alike_start, differ_start⟩
    exact by_contra fun hnot => hdiffer.replies hnot (hiso ins' s' hins h' hdiffer.messages)
  · intro hown ins' s' hins h' hmsg
    have hrel : s.Alike s' ∧ Agree c s s' := by
      refine Trace.lockstep (R := fun s s' => s.Alike s' ∧ Agree c s s') ?_ hins h h'
        ⟨alike_start, agree_start⟩
      exact fun i i' s s' t t' hi hs hst hst' => hst.alike hi hst' hs.1 hs.2
    exact (hrel.2 hown hmsg).1

/-- A batch of one event, and its handling. -/
lemma trace_round {e : Event} {r : Reply} (hb : s.batch = []) (hev : Reportable s [e])
    (hr : Answers listenfd s r) :
    Trace (Takes listenfd) s [.wait [e], .handle r] (handle listenfd s e r) := by
  have hback : ({ s with batch := [] } : State) = s := by rw [← hb]
  have hhandle : Takes listenfd (.handle r) { s with batch := [e] }
      (handle listenfd { s with batch := [] } e r) := .handle rfl ⟨hr.accept, hr.recv⟩
  rw [hback] at hhandle
  exact .cons (.wait hb hev) (.cons hhandle (.nil _))

lemma Reportable.single {e : Event} {i : Interest} (hi : s.interest e.fd = some i)
    (hin : e.epollin = true → i.epollin = true) (hout : e.epollout = true → i.epollout = true) :
    Reportable s [e] := by
  refine ⟨?_, ?_, ?_, List.nodup_singleton _, by simp⟩
  · simp [hi]
  · simpa [hi] using hin
  · simpa [hi] using hout

/-- The client `c` comes and sends the byte `b`. -/
def message (c : ℤ) (b : UInt8) : List Input :=
  [.wait [⟨3, true, false⟩], .handle ⟨some c, .error, bufferLength⟩,
    .wait [⟨c, true, false⟩], .handle ⟨none, .data [b], bufferLength⟩]

/-- The client 5 is answered. -/
def answer : List Input := [.wait [⟨5, false, true⟩], .handle ⟨none, .error, bufferLength⟩]

lemma exists_message (hb : s.batch = []) (hl : s.interest 3 = some ⟨true, false, false⟩)
    (hc : 0 ≤ c ∧ c ≠ 3 ∧ c ∉ s.conns) (b : UInt8) :
    ∃ t, Trace (Takes 3) s (message c b) t ∧ t.batch = [] ∧ t.conns = insert c s.conns ∧
      t.interest = Function.update s.interest c (some ⟨false, true, false⟩) ∧
      t.calls = s.calls ++ [(c, .recv [b])] ∧ t.wbuffer = b :: s.rbuffer.drop 1 := by
  have h₁ := @trace_round 3 s ⟨3, true, false⟩ ⟨some c, .error, bufferLength⟩ hb
    (.single hl (fun _ => rfl) (by simp)) ⟨by simpa using hc, by simp⟩
  have h₂ := @trace_round 3 _ ⟨c, true, false⟩ ⟨none, .data [b], bufferLength⟩
    (show (handle 3 s ⟨3, true, false⟩ ⟨some c, .error, bufferLength⟩).batch = [] from hb)
    (.single (Function.update_self _ _ _) (fun _ => rfl) (by simp))
    ⟨by simp, by simp [bufferLength]⟩
  have hne : (3 : ℤ) ≠ c := hc.2.1.symm
  refine ⟨_, h₁.append h₂, ?_⟩
  simp [handle, hne, hb, epollMod, Function.update_idem]

/-- The client 5 is answered after its message and one of the client 6, in either order. -/
lemma exists_answer (hb : s.batch = []) (hi : s.interest 5 = some ⟨false, true, false⟩) :
    ∃ t, Trace (Takes 3) s answer t ∧
      t.calls = s.calls ++ [(5, .send s.wbuffer (s.wbuffer.take bufferLength))] :=
  ⟨_, @trace_round 3 s ⟨5, false, true⟩ ⟨none, .error, bufferLength⟩ hb
    (.single hi (by simp) (fun _ => rfl)) ⟨by simp, by simp⟩, rfl⟩

/-- The answer to the client 5, when the client 6 has sent a byte after it. -/
lemma exists_twoClients (b : UInt8) : ∃ s x,
    Trace (Takes 3) (State.start 3) (message 5 104 ++ message 6 b ++ answer) s ∧
      messages (s.log 5) = [[104]] ∧ replies (s.log 5) = [b :: x] := by
  obtain ⟨s, h, hb, hconns, hinterest, hcalls, -⟩ :=
    @exists_message (State.start 3) 5 rfl rfl (by simp [State.start]) 104
  obtain ⟨t, h', hb', -, hinterest', hcalls', hw⟩ :=
    @exists_message s 6 hb (by simp [hinterest]; rfl) (by simp [hconns, State.start]) b
  obtain ⟨u, h'', hcalls''⟩ := exists_answer hb' (by simp [hinterest', hinterest])
  refine ⟨u, s.rbuffer.drop 1, (h.append h').append h'', ?_, ?_⟩
  · simp [State.log, hcalls'', hcalls', hcalls, State.start, messages]
  · simp [State.log, hcalls'', hcalls', hcalls, hw, State.start, replies]

/-- What the client 5 is sent depends on what the client 6 has sent. -/
theorem leakedMessage : ∃ s s' : State,
    List.Forall₂ Input.Alike (message 5 104 ++ message 6 1 ++ answer)
        (message 5 104 ++ message 6 2 ++ answer) ∧
      Trace (Takes 3) (State.start 3) (message 5 104 ++ message 6 1 ++ answer) s ∧
      Trace (Takes 3) (State.start 3) (message 5 104 ++ message 6 2 ++ answer) s' ∧
      messages (s.log 5) = messages (s'.log 5) ∧ replies (s.log 5) ≠ replies (s'.log 5) := by
  obtain ⟨s, x, h, hmsg, hreplies⟩ := exists_twoClients 1
  obtain ⟨s', x', h', hmsg', hreplies'⟩ := exists_twoClients 2
  refine ⟨s, s', ?_, h, h', by rw [hmsg, hmsg'], ?_⟩
  · simp only [message, answer, List.cons_append, List.nil_append, List.forall₂_cons,
      List.forall₂_nil_left_iff, and_true]
    refine ⟨.wait _, .handle (.refl _), .wait _, .handle (.refl _), .wait _, .handle (.refl _),
      .wait _, .handle ⟨rfl, .data rfl⟩, .wait _, .handle (.refl _)⟩
  · rw [hreplies, hreplies']
    simp

/-- The client 5 is isolated when its own message comes after that of the client 6. -/
theorem isolated_lastMessage : ∃ s,
    Trace (Takes 3) (State.start 3) (message 6 1 ++ message 5 104 ++ answer) s ∧
      messages (s.log 6) = [[1]] ∧ (replies (s.log 5)).length = 1 ∧
      Isolated 3 5 (message 6 1 ++ message 5 104 ++ answer) s := by
  obtain ⟨s, h, hb, hconns, hinterest, hcalls, -⟩ :=
    @exists_message (State.start 3) 6 rfl rfl (by simp [State.start]) 1
  obtain ⟨t, h', hb', -, hinterest', hcalls', -⟩ :=
    @exists_message s 5 hb (by simp [hinterest]; rfl) (by simp [hconns, State.start]) 104
  obtain ⟨u, h'', hcalls''⟩ := exists_answer hb' (by simp [hinterest', hinterest])
  have hown : OwnSends 5 u.calls := by
    rw [hcalls'', hcalls', hcalls]
    have hnil : OwnSends 5 (State.start 3).calls := ownSends_nil 5
    refine ownSends_snoc.2 ⟨ownSends_snoc.2 ⟨ownSends_snoc.2 ⟨hnil, ?_⟩, ?_⟩, ?_⟩
    · simp
    · simp
    · -- both messages have one byte
      intro given transferred _ i fd hfd
      by_cases hi : i < 1
      · simpa [State.start, writer, writerAfter, hi, eq_comm] using hfd
      · simp [State.start, writer, writerAfter, hi] at hfd
  have hrun := (h.append h').append h''
  refine ⟨u, hrun, ?_, ?_, (isolated_iff_ownSends hrun 5).2 hown⟩
  · simp [State.log, hcalls'', hcalls', hcalls, State.start, messages]
  · simp [State.log, hcalls'', hcalls', hcalls, State.start, replies]

end CppExample.Demo.EpollServer
