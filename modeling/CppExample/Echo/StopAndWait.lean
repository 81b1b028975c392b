/-
# A client and its server

`str_cli` of `network/echo/d1_echo_client.cpp` together with the server that runs `str_echo` of
`basic_lib/str_echo.c`, and a connection between them.  The client sends a line, waits until
`Readline` has the answer, and prints it.  `str_cli` of `basic_lib/str_cli.c` does the same, with
`MAXLINE` for the size of its buffers.

The connection keeps the bytes in order.  How many bytes a call of `read` or `write` transfers,
and in which order the two sides take their steps, is open.  In each direction the system has
room for `capacity` bytes.  The server may fail at any time, for any reason.

Reading from the terminal and writing to it do not fail.
-/
import Mathlib.Data.List.TakeWhile
import CppExample.BasicLib.TextLines
import CppExample.BasicLib.StrEcho

namespace CppExample.Echo.StopAndWait
open Lib BasicLib

/-- `BUFFER_LENGTH` of the client. -/
def bufferLength : ℕ := 1024

/-- Where `str_cli` is. -/
inductive Client where
  /-- Before `Fgets`. -/
  | fgets
  /-- In `Writen`, at `write`, with what is left to write. -/
  | writen (left : List UInt8)
  /-- In `Readline`, at a `read` that has not returned yet, with what this call of `Readline` has
  found so far. -/
  | readline (arrivals : List Arrival)
  | returned
  /-- In `err_quit ("str_cli: server terminated prematurely")`. -/
  | errQuit
  /-- In `err_sys`. -/
  | errSys
deriving DecidableEq, Repr

/-- The process has ended, or is about to. -/
def Client.closed : Client → Bool
  | returned | errQuit | errSys => true
  | _ => false

/-- The two processes and the connection. -/
structure Session where
  client : Client
  /-- What the terminal will still give. -/
  stdin : List UInt8
  stdout : List UInt8
  /-- The static variables of `readline.c` when `Readline` was called. -/
  static : Static
  toServer : List UInt8
  toClient : List UInt8
  server : StrEcho

/-- The string that begins here: what `strlen` counts and `Fputs` prints. -/
def cstr (l : List UInt8) : List UInt8 := l.takeWhile (· ≠ 0)

variable (size : ℕ)

namespace Session

def start (input : List UInt8) : Session := ⟨.fgets, input, [], .zero, [], [], .reading⟩

/-- `Readline`, when it has found these arrivals, and if it returns, then what follows it. -/
def onReadline (s : Session) (arrivals : List Arrival) : Session :=
  match readline size ⟨s.static, arrivals⟩ with
  | none => { s with client := .readline arrivals }
  | some r =>
    if r.ret < 0 then { s with static := r.source.static, client := .errSys }
    else if r.ret = 0 then { s with static := r.source.static, client := .errQuit }
    else
      { s with
        static := r.source.static
        client := .fgets
        stdout := s.stdout ++ cstr r.stored }

/-- `Writen`, and if it returns, then what follows it. -/
def onWriten (s : Session) : Writen → Session
  | .left bytes => { s with client := .writen bytes }
  | .returned => s.onReadline size []
  | .failed => { s with client := .errSys }

/-- `Fgets`, and what follows it. -/
def onFgets (s : Session) : Session :=
  let line := firstLine isNewline (size - 1) s.stdin
  if line = [] then { s with client := .returned }
  else
    { s with stdin := afterLine isNewline (size - 1) s.stdin }.onWriten size
      (.loop (cstr line))

end Session

/-- The kinds of steps. -/
inductive Act where
  | fgets
  | clientWrote
  | clientRead
  | clientEof
  | clientFailed
  /-- A call on either side is interrupted. -/
  | interrupted
  | serverRead
  | serverEof
  | serverWrote
  | serverFailed
deriving DecidableEq, Repr

/-- The steps of the client and of the server. -/
inductive Step (capacity : ℕ) : Act → Session → Session → Prop
  | fgets {s : Session} (h : s.client = .fgets) : Step capacity .fgets s (s.onFgets size)
  | clientWrote {s : Session} {bytes : List UInt8} {k : ℕ} (h : s.client = .writen bytes)
      (hk : 0 < k) (hle : k ≤ bytes.length) (hroom : s.toServer.length + k ≤ capacity) :
      Step capacity .clientWrote s
        ({ s with toServer := s.toServer ++ bytes.take k }.onWriten size
          (Writen.onWrite bytes (.bytes k)))
  | clientRead {s : Session} {arrivals : List Arrival} {k : ℕ} (h : s.client = .readline arrivals)
      (hk : 0 < k) (hle : k ≤ s.toClient.length) (hmax : k ≤ maxline) :
      Step capacity .clientRead s
        ({ s with toClient := s.toClient.drop k }.onReadline size
          (arrivals ++ putBack (s.toClient.take k) []))
  | clientEof {s : Session} {arrivals : List Arrival} (h : s.client = .readline arrivals)
      (hempty : s.toClient = []) (hs : s.server.closed) :
      Step capacity .clientEof s (s.onReadline size (arrivals ++ [.eof]))
  | readFailed {s : Session} {arrivals : List Arrival} (h : s.client = .readline arrivals)
      (hs : s.server = .failed) :
      Step capacity .clientFailed s
        ({ s with toClient := [] }.onReadline size (arrivals ++ [Arrival.error]))
  | writeFailed {s : Session} {bytes : List UInt8} (h : s.client = .writen bytes)
      (hs : s.server = .failed) :
      Step capacity .clientFailed s (s.onWriten size (Writen.onWrite bytes .error))
  | readInterrupted {s : Session} {arrivals : List Arrival} (h : s.client = .readline arrivals) :
      Step capacity .interrupted s (s.onReadline size (arrivals ++ [.eintr]))
  | writeInterrupted {s : Session} {bytes : List UInt8} (h : s.client = .writen bytes) :
      Step capacity .interrupted s (s.onWriten size (Writen.onWrite bytes .eintr))
  | serverRead {s : Session} {k : ℕ} (h : s.server = .reading) (hk : 0 < k)
      (hle : k ≤ s.toServer.length) (hmax : k ≤ maxline) :
      Step capacity .serverRead s { s with
        server := .onRead (.data (s.toServer.take k))
        toServer := s.toServer.drop k }
  | serverEof {s : Session} (h : s.server = .reading) (hempty : s.toServer = [])
      (hc : s.client.closed) :
      Step capacity .serverEof s { s with server := .onRead .eof }
  | serverWrote {s : Session} {bytes : List UInt8} {k : ℕ} (h : s.server = .writing bytes)
      (hk : 0 < k) (hle : k ≤ bytes.length) (hroom : s.toClient.length + k ≤ capacity) :
      Step capacity .serverWrote s { s with
        server := .onWrite bytes (.bytes k)
        toClient := s.toClient ++ bytes.take k }
  | serverReadInterrupted {s : Session} (h : s.server = .reading) :
      Step capacity .interrupted s { s with server := .onRead .eintr }
  | serverWriteInterrupted {s : Session} {bytes : List UInt8} (h : s.server = .writing bytes) :
      Step capacity .interrupted s { s with server := .onWrite bytes .eintr }
  | serverFailed {s : Session} (h : ¬ s.server.closed) :
      Step capacity .serverFailed s { s with server := .failed }

/-! ## The shape of a session -/

/-- A line that is sent in full, and whose answer ends where the line ends. -/
def Answerable (x : List UInt8) : Prop := 0 ∉ x ∧ Whole isNewline (size - 1) x

instance (x : List UInt8) : Decidable (Answerable size x) := inferInstanceAs (Decidable (_ ∧ _))

/-- The lines of the input, as `Fgets` gives them. -/
def inputLines (input : List UInt8) : List (List UInt8) := lines isNewline (size - 1) input

/-- Between two lines: those of `printed` were answered. -/
structure Idle (input : List UInt8) (printed : List (List UInt8)) (s : Session) : Prop where
  all : inputLines size input = printed ++ inputLines size s.stdin
  stdout : s.stdout = printed.flatten
  answered : ∀ x ∈ printed, Answerable size x
  toClient : s.toClient = []
  quiet : s.server ≠ .failed → s.server.left = [] ∧ s.toServer = []
  nonempty : s.server ≠ .writing []

/-- While a line is answered: `got` is what `Readline` has of the answer, and `unsent` is what
`Writen` has still to send. -/
structure Asking (input : List UInt8) (printed : List (List UInt8)) (line got unsent : List UInt8)
    (s : Session) : Prop where
  all : inputLines size input = printed ++ line :: inputLines size s.stdin
  stdout : s.stdout = printed.flatten
  answered : ∀ x ∈ printed, Answerable size x
  answer : got ++ s.toClient <+: cstr line
  going : s.server ≠ .failed →
    got ++ s.toClient ++ s.server.left ++ s.toServer ++ unsent = cstr line
  serving : s.server ≠ .returned
  nonempty : s.server ≠ .writing []

/-- The server has failed, and no answer can be complete any more. -/
structure Cut (input : List UInt8) (s : Session) : Prop where
  failed : s.server = .failed
  stdout : s.stdout <+: input
  toClient : s.toClient = []

/-- The phases of a session. -/
inductive Phase (input : List UInt8) (s : Session) : Prop
  | idle (printed : List (List UInt8)) (h : Idle size input printed s) (hc : s.client = .fgets)
      (hs : s.server ≠ .returned) (hu : s.static.unread = [])
  | sending (printed : List (List UInt8)) (line bytes : List UInt8)
      (h : Asking size input printed line [] bytes s) (hc : s.client = .writen bytes)
      (hne : bytes ≠ []) (hu : s.static.unread = [])
  | waiting (printed : List (List UInt8)) (line got : List UInt8) (arrivals : List Arrival)
      (h : Asking size input printed line got [] s) (hc : s.client = .readline arrivals)
      (hr : Source.reads ⟨s.static, arrivals⟩ = got.map .byte)
      (hb : readline size ⟨s.static, arrivals⟩ = none)
  | finished (printed : List (List UInt8)) (h : Idle size input printed s)
      (hc : s.client = .returned) (hin : s.stdin = [])
  | cut (h : Cut input s)
      (hc : s.client = .fgets ∨ ∃ bytes, s.client = .writen bytes ∧ bytes ≠ [])
      (hu : s.static.unread = [])
  | cutWaiting (arrivals : List Arrival) (h : Cut input s) (hc : s.client = .readline arrivals)
      (hr : Source.reads ⟨s.static, arrivals⟩ = [])
  | gone (hs : s.server = .failed) (hout : s.stdout <+: input) (hc : s.client.closed)

variable {size} {input line got unsent bytes : List UInt8} {printed : List (List UInt8)}
  {s t : Session} {arrivals : List Arrival}

/-! ## Strings -/

lemma cstr_isPrefix (l : List UInt8) : cstr l <+: l := List.takeWhile_prefix _

lemma zero_notMem_cstr (l : List UInt8) : 0 ∉ cstr l := by
  intro h
  simpa using List.mem_takeWhile_imp h

/-- The 0 that is stored behind a string ends it. -/
lemma cstr_append_zero (h : 0 ∉ bytes) : cstr (bytes ++ [0]) = bytes := by
  rw [cstr, List.takeWhile_append_of_pos]
  · simp
  · intro b hb
    simp only [ne_eq, decide_not, Bool.not_eq_eq_eq_not, Bool.not_true, decide_eq_false_iff_not]
    rintro rfl
    exact h hb

/-! ## What `Readline` finds -/

lemma retOf_pos (h : bytes ≠ []) : 0 < retOf size bytes := by
  have := List.length_pos_iff.2 h
  rw [retOf]
  split <;> omega

lemma readline_none_iff (hr : Source.reads ⟨s.static, arrivals⟩ = got.map .byte) :
    readline size ⟨s.static, arrivals⟩ = none ↔
      ¬ Whole isNewline (size - 1) (firstLine isNewline (size - 1) got) := by
  rw [readline_eq_none_iff, hr, takeLine_bytes_eq_none_iff]

/-- `Readline` waits for a first byte. -/
lemma readline_none_of_nil (hsize : 2 ≤ size) (hr : Source.reads ⟨s.static, arrivals⟩ = []) :
    readline size ⟨s.static, arrivals⟩ = none := by
  rw [readline_eq_none_iff, hr]
  refine (@takeLine_bytes_eq_none_iff size []).2 ?_
  simp [Whole]
  omega

/-- `Readline` has found the answer to a line. -/
lemma onReadline_of_whole (hr : Source.reads ⟨s.static, arrivals⟩ = line.map .byte)
    (hline : firstLine isNewline (size - 1) line = line) (hne : line ≠ [])
    (hw : Whole isNewline (size - 1) line) (hzero : 0 ∉ line) :
    ∃ st : Static, st.unread = [] ∧ s.onReadline size arrivals
      = { s with static := st, client := .fgets, stdout := s.stdout ++ line } := by
  have htake := @takeLine_of_whole size line [] (by rwa [hline]) rfl
  rw [List.append_nil, ← hr, afterLine, hline, List.drop_length] at htake
  obtain ⟨r, hread, hmap⟩ := exists_readline htake
  have hret : r.ret = retOf size line := congrArg Call.ret hmap
  have hstored : r.stored = line ++ [0] := congrArg Call.stored hmap
  have hreads : r.source.reads = [] := congrArg Call.source hmap
  have hpos := @retOf_pos size line hne
  refine ⟨r.source.static, unread_eq_nil_of_reads hreads, ?_⟩
  rw [Session.onReadline, hread]
  simp only [hret, hstored, cstr_append_zero hzero, if_neg (not_lt.2 hpos.le), if_neg hpos.ne']

/-- `Readline` goes on waiting. -/
lemma onReadline_of_none (h : readline size ⟨s.static, arrivals⟩ = none) :
    s.onReadline size arrivals = { s with client := .readline arrivals } := by
  rw [Session.onReadline, h]

/-- The connection is closed while `Readline` waits.  It returns what it has. -/
lemma onReadline_of_eof (hsize : 2 ≤ size)
    (hr : Source.reads ⟨s.static, arrivals⟩ = got.map .byte)
    (hb : readline size ⟨s.static, arrivals⟩ = none) (hzero : 0 ∉ got) :
    ∃ st : Static, st.unread = [] ∧ s.onReadline size (arrivals ++ [.eof])
      = if got = [] then { s with static := st, client := .errQuit }
        else { s with static := st, client := .fgets, stdout := s.stdout ++ got } := by
  have hw := (readline_none_iff hr).1 hb
  have hreads : Source.reads ⟨s.static, arrivals ++ [.eof]⟩ = got.map .byte ++ .eof :: [] := by
    rw [reads_append, hr]
    rfl
  have htake := @takeLine_of_eof size got [] hw
  rw [← hreads] at htake
  obtain ⟨r, hread, hmap⟩ := exists_readline htake
  have hret : r.ret = retOf size got := congrArg Call.ret hmap
  have hstored : r.stored = got ++ [0] := congrArg Call.stored hmap
  have hrest : r.source.reads = [] := congrArg Call.source hmap
  refine ⟨r.source.static, unread_eq_nil_of_reads hrest, ?_⟩
  by_cases hgot : got = []
  · have hnone : retOf size got = 0 := by
      subst hgot
      simp [retOf]
      omega
    rw [hnone] at hret
    rw [Session.onReadline, hread]
    simp [hret, hgot]
  · have hpos := @retOf_pos size got hgot
    rw [Session.onReadline, hread]
    simp only [hret, hstored, cstr_append_zero hzero, if_neg (not_lt.2 hpos.le),
      if_neg hpos.ne', if_neg hgot]

/-- Reading fails while `Readline` waits. -/
lemma onReadline_of_error (hr : Source.reads ⟨s.static, arrivals⟩ = got.map .byte)
    (hb : readline size ⟨s.static, arrivals⟩ = none) :
    ∃ st : Static, s.onReadline size (arrivals ++ [.error])
      = { s with static := st, client := .errSys } := by
  have hw := (readline_none_iff hr).1 hb
  have hreads : Source.reads ⟨s.static, arrivals ++ [.error]⟩ = got.map .byte ++ .error :: [] := by
    rw [reads_append, hr]
    rfl
  have htake := @takeLine_of_error size got [] hw
  rw [← hreads] at htake
  obtain ⟨r, hread, hmap⟩ := exists_readline htake
  have hret : r.ret = -1 := congrArg Call.ret hmap
  refine ⟨r.source.static, ?_⟩
  rw [Session.onReadline, hread]
  simp [hret]

/-! ## The steps of the server -/

/-- What a step of the server does: it moves bytes on, or it ends. -/
structure ServerMoves (s t : Session) : Prop where
  client : t.client = s.client
  static : t.static = s.static
  stdin : t.stdin = s.stdin
  stdout : t.stdout = s.stdout
  toClient : t.server = .failed → t.toClient = s.toClient
  alive : t.server ≠ .failed → s.server ≠ .failed
  flow : t.server ≠ .failed →
    t.toClient ++ t.server.left ++ t.toServer = s.toClient ++ s.server.left ++ s.toServer
  nonempty : t.server ≠ .writing []
  returned : t.server = .returned → s.client.closed

lemma onWriten_loop_ne (bytes : List UInt8) :
    StrEcho.onWriten (.loop bytes) ≠ .writing [] ∧ StrEcho.onWriten (.loop bytes) ≠ .failed ∧
      StrEcho.onWriten (.loop bytes) ≠ .returned := by
  rcases onWriten_loop_cases bytes with ⟨-, h⟩ | ⟨hne, h⟩
  · simp [h]
  · simp [h, hne]

/-- The server goes on with `rest` to be written. -/
lemma serverMoves_of_loop (rest : List UInt8) {toServer toClient : List UInt8}
    (halive : s.server ≠ .failed)
    (hflow : toClient ++ rest ++ toServer = s.toClient ++ s.server.left ++ s.toServer)
    (ht : t = { s with
      server := .onWriten (.loop rest), toServer := toServer, toClient := toClient }) :
    ServerMoves s t := by
  obtain ⟨hne, hfail, hret⟩ := onWriten_loop_ne rest
  subst ht
  exact ⟨rfl, rfl, rfl, rfl, fun h => absurd h hfail, fun _ => halive,
    fun _ => by simpa using hflow, hne, fun h => absurd h hret⟩

/-- A session goes through the same phase after a step of the server. -/
lemma Phase.server (h : Phase size input s) (hm : ServerMoves s t) : Phase size input t := by
  have hidle : ∀ printed, Idle size input printed s → Idle size input printed t := by
    intro printed hi
    have hnil : t.server ≠ .failed → t.toClient ++ t.server.left ++ t.toServer = [] := by
      intro ht
      obtain ⟨hleft, hto⟩ := hi.quiet (hm.alive ht)
      rw [hm.flow ht, hi.toClient, hleft, hto]
      rfl
    refine ⟨by rw [hm.stdin, hi.all], by rw [hm.stdout, hi.stdout], hi.answered, ?_, ?_,
      hm.nonempty⟩
    · by_cases ht : t.server = .failed
      · rw [hm.toClient ht, hi.toClient]
      · exact (List.append_eq_nil_iff.1 (List.append_eq_nil_iff.1 (hnil ht)).1).1
    · intro ht
      have := hnil ht
      rw [List.append_eq_nil_iff, List.append_eq_nil_iff] at this
      exact ⟨this.1.2, this.2⟩
  have hasking : ∀ printed line got unsent, s.client.closed = false →
      Asking size input printed line got unsent s →
        Asking size input printed line got unsent t := by
    intro printed line got unsent hclosed ha
    have hgoing : t.server ≠ .failed →
        got ++ t.toClient ++ t.server.left ++ t.toServer ++ unsent = cstr line := by
      intro ht
      have hflow := congrArg (got ++ · ++ unsent) (hm.flow ht)
      simp only [← List.append_assoc] at hflow
      rw [hflow, ha.going (hm.alive ht)]
    refine ⟨by rw [hm.stdin, ha.all], by rw [hm.stdout, ha.stdout], ha.answered, ?_, hgoing,
      fun hret => ?_, hm.nonempty⟩
    · by_cases ht : t.server = .failed
      · rw [hm.toClient ht]
        exact ha.answer
      · rw [← hgoing ht, List.append_assoc, List.append_assoc]
        exact List.prefix_append _ _
    · have := hm.returned hret
      rw [hclosed] at this
      cases this
  have hfailed : s.server = .failed → t.server = .failed := by
    intro hs
    by_contra ht
    exact hm.alive ht hs
  have hcut : Cut input s → Cut input t := fun h =>
    ⟨hfailed h.failed, by rw [hm.stdout]; exact h.stdout,
      by rw [hm.toClient (hfailed h.failed), h.toClient]⟩
  cases h with
  | idle printed h hc hs hu =>
    refine .idle printed (hidle printed h) (hm.client.trans hc) (fun hret => ?_)
      (by rw [hm.static, hu])
    have := hm.returned hret
    rw [hc] at this
    cases this
  | sending printed line bytes h hc hne hu =>
    exact .sending printed line bytes (hasking _ _ _ _ (by rw [hc]; rfl) h) (hm.client.trans hc)
      hne (by rw [hm.static, hu])
  | waiting printed line got arrivals h hc hr hb =>
    exact .waiting printed line got arrivals (hasking _ _ _ _ (by rw [hc]; rfl) h)
      (hm.client.trans hc) (by rw [hm.static, hr]) (by rw [hm.static, hb])
  | finished printed h hc hin =>
    exact .finished printed (hidle printed h) (hm.client.trans hc) (hm.stdin.trans hin)
  | cut h hc hu =>
    exact .cut (hcut h) (by rwa [hm.client]) (by rw [hm.static, hu])
  | cutWaiting arrivals h hc hr =>
    exact .cutWaiting arrivals (hcut h) (hm.client.trans hc) (by rw [hm.static, hr])
  | gone hs hout hc =>
    exact .gone (hfailed hs) (by rwa [hm.stdout]) (by rwa [hm.client])

/-! ## The steps of the client -/

/-- The line that is asked for. -/
lemma Asking.isLine (h : Asking size input printed line got unsent s) :
    line ≠ [] ∧ firstLine isNewline (size - 1) line = line := by
  refine of_mem_lines (l := input) ?_
  have hall := h.all
  rw [inputLines] at hall
  rw [hall]
  simp

/-- What was printed and what will be, is the input. -/
lemma input_eq (hsize : 2 ≤ size) {ls : List (List UInt8)} (h : inputLines size input = ls) :
    input = ls.flatten := by
  rw [← h, inputLines, flatten_lines (by omega)]

lemma Asking.got_isPrefix (h : Asking size input printed line got unsent s) : got <+: line :=
  (List.prefix_append got s.toClient).trans (h.answer.trans (cstr_isPrefix line))

lemma Asking.zero_notMem (h : Asking size input printed line got unsent s) : 0 ∉ got := by
  intro hmem
  refine zero_notMem_cstr line (h.answer.subset ?_)
  exact List.mem_append_left _ hmem

/-- `Readline` has found `got`.  If this is a whole line, then it is the line that was asked
for. -/
lemma Asking.onReadline (h : Asking size input printed line got [] s)
    (hr : Source.reads ⟨s.static, arrivals⟩ = got.map .byte) :
    Phase size input (s.onReadline size arrivals) := by
  obtain ⟨hne, hline⟩ := h.isLine
  by_cases hw : Whole isNewline (size - 1) (firstLine isNewline (size - 1) got)
  · have hgot : got = line := by
      have hpre := h.got_isPrefix
      rw [← hline] at hpre
      rw [eq_firstLine_of_whole hpre hw, hline]
    subst hgot
    rw [hline] at hw
    have hzero := h.zero_notMem
    obtain ⟨st, hu, heq⟩ := onReadline_of_whole (s := s) hr hline hne hw hzero
    rw [heq]
    -- nothing of the answer is behind the line
    have hle := h.answer.length_le.trans (cstr_isPrefix got).length_le
    rw [List.length_append] at hle
    have hto : s.toClient = [] := List.eq_nil_of_length_eq_zero (by omega)
    have hquiet : s.server ≠ .failed → s.server.left = [] ∧ s.toServer = [] := by
      intro hs
      have hlen := congrArg List.length (h.going hs)
      have hcstr := (cstr_isPrefix got).length_le
      simp only [List.length_append] at hlen
      exact ⟨List.eq_nil_of_length_eq_zero (by omega), List.eq_nil_of_length_eq_zero (by omega)⟩
    refine .idle (printed ++ [got]) ⟨?_, ?_, ?_, hto, hquiet, h.nonempty⟩ rfl h.serving hu
    · rw [h.all, List.append_assoc, List.singleton_append]
    · simp [h.stdout]
    · intro x hx
      rcases List.mem_append.1 hx with hx | hx
      · exact h.answered x hx
      · obtain rfl := List.mem_singleton.1 hx
        exact ⟨hzero, hw⟩
  · have hb := (readline_none_iff hr).2 hw
    rw [onReadline_of_none hb]
    exact .waiting printed line got arrivals
      ⟨h.all, h.stdout, h.answered, h.answer, h.going, h.serving, h.nonempty⟩ rfl hr hb

/-- `Writen` has `bytes` to send. -/
lemma Asking.onWriten (h : Asking size input printed line [] bytes s) (hu : s.static.unread = []) :
    Phase size input (s.onWriten size (.loop bytes)) := by
  by_cases hb : bytes = []
  · subst hb
    exact h.onReadline (reads_of_unread hu)
  · rw [Writen.loop, if_neg hb]
    exact .sending printed line bytes
      ⟨h.all, h.stdout, h.answered, h.answer, h.going, h.serving, h.nonempty⟩ rfl hb hu

/-- Nothing of an answer is left. -/
lemma Cut.onReadline (hsize : 2 ≤ size) (h : Cut input s)
    (hr : Source.reads ⟨s.static, arrivals⟩ = []) :
    Phase size input (s.onReadline size arrivals) := by
  rw [onReadline_of_none (readline_none_of_nil hsize hr)]
  exact .cutWaiting arrivals ⟨h.failed, h.stdout, h.toClient⟩ rfl hr

lemma Cut.onWriten (hsize : 2 ≤ size) (h : Cut input s) (hu : s.static.unread = []) :
    Phase size input (s.onWriten size (.loop bytes)) := by
  by_cases hb : bytes = []
  · subst hb
    exact h.onReadline hsize (reads_of_unread hu)
  · rw [Writen.loop, if_neg hb]
    exact .cut ⟨h.failed, h.stdout, h.toClient⟩ (.inr ⟨bytes, rfl, hb⟩) hu

/-! ### The phase is known from where the client is -/

lemma Phase.of_fgets (h : Phase size input s) (hc : s.client = .fgets) :
    (∃ printed, Idle size input printed s ∧ s.server ≠ .returned ∧ s.static.unread = []) ∨
      Cut input s ∧ s.static.unread = [] := by
  cases h with
  | idle printed h _ hs hu => exact .inl ⟨printed, h, hs, hu⟩
  | cut h _ hu => exact .inr ⟨h, hu⟩
  | sending _ _ _ _ hc' _ _ => simp [hc] at hc'
  | waiting _ _ _ _ _ hc' _ _ => simp [hc] at hc'
  | finished _ _ hc' _ => simp [hc] at hc'
  | cutWaiting _ _ hc' _ => simp [hc] at hc'
  | gone _ _ hc' => simp [hc, Client.closed] at hc'

lemma Phase.of_writen (h : Phase size input s) (hc : s.client = .writen bytes) :
    bytes ≠ [] ∧ s.static.unread = [] ∧
      ((∃ printed line, Asking size input printed line [] bytes s) ∨ Cut input s) := by
  cases h with
  | sending printed line bytes' h hc' hne hu =>
    rw [hc] at hc'
    injection hc' with hbytes
    subst hbytes
    exact ⟨hne, hu, .inl ⟨printed, line, h⟩⟩
  | cut h hc' hu =>
    rcases hc' with hc' | ⟨bytes', hc', hne⟩
    · simp [hc] at hc'
    · rw [hc] at hc'
      injection hc' with hbytes
      subst hbytes
      exact ⟨hne, hu, .inr h⟩
  | idle _ _ hc' _ _ => simp [hc] at hc'
  | waiting _ _ _ _ _ hc' _ _ => simp [hc] at hc'
  | finished _ _ hc' _ => simp [hc] at hc'
  | cutWaiting _ _ hc' _ => simp [hc] at hc'
  | gone _ _ hc' => simp [hc, Client.closed] at hc'

lemma Phase.of_readline (h : Phase size input s) (hc : s.client = .readline arrivals) :
    (∃ printed line got, Asking size input printed line got [] s ∧
      Source.reads ⟨s.static, arrivals⟩ = got.map .byte ∧
      readline size ⟨s.static, arrivals⟩ = none) ∨
    Cut input s ∧ Source.reads ⟨s.static, arrivals⟩ = [] := by
  cases h with
  | waiting printed line got arrivals' h hc' hr hb =>
    rw [hc] at hc'
    injection hc' with harr
    subst harr
    exact .inl ⟨printed, line, got, h, hr, hb⟩
  | cutWaiting arrivals' h hc' hr =>
    rw [hc] at hc'
    injection hc' with harr
    subst harr
    exact .inr ⟨h, hr⟩
  | idle _ _ hc' _ _ => simp [hc] at hc'
  | sending _ _ _ _ hc' _ _ => simp [hc] at hc'
  | finished _ _ hc' _ => simp [hc] at hc'
  | cut _ hc' _ => simp [hc] at hc'
  | gone _ _ hc' => simp [hc, Client.closed] at hc'

/-! ### The output -/

/-- The client has printed a beginning of the input. -/
lemma Phase.stdout_isPrefix (hsize : 2 ≤ size) (h : Phase size input s) : s.stdout <+: input := by
  have hpre : ∀ printed rest, inputLines size input = printed ++ rest → s.stdout = printed.flatten →
      s.stdout <+: input := by
    intro printed rest hall hout
    rw [input_eq hsize hall, hout, List.flatten_append]
    exact List.prefix_append _ _
  cases h with
  | idle printed h _ _ _ => exact hpre _ _ h.all h.stdout
  | sending printed line bytes h _ _ _ => exact hpre _ _ h.all h.stdout
  | waiting printed line got arrivals h _ _ _ => exact hpre _ _ h.all h.stdout
  | finished printed h _ _ => exact hpre _ _ h.all h.stdout
  | cut h _ _ => exact h.stdout
  | cutWaiting _ h _ _ => exact h.stdout
  | gone _ hout _ => exact hout

/-- What `Readline` has of an answer may be printed, too. -/
lemma Asking.printed_got (hsize : 2 ≤ size) (h : Asking size input printed line got unsent s) :
    s.stdout ++ got <+: input := by
  obtain ⟨rest, hrest⟩ := h.got_isPrefix
  rw [input_eq hsize h.all, h.stdout, List.flatten_append, List.flatten_cons, ← hrest,
    List.append_assoc, List.prefix_append_right_inj]
  exact List.prefix_append _ _

/-! ### One step -/

lemma phase_onFgets (hsize : 2 ≤ size) (h : Phase size input s) (hc : s.client = .fgets) :
    Phase size input (s.onFgets size) := by
  have hpos : 0 < size - 1 := by omega
  by_cases hin : s.stdin = []
  · have heq : s.onFgets size = { s with client := .returned } := by
      rw [Session.onFgets]
      simp [hin]
    rw [heq]
    rcases h.of_fgets hc with ⟨printed, h, _, _⟩ | ⟨h, _⟩
    · exact .finished printed ⟨h.all, h.stdout, h.answered, h.toClient, h.quiet, h.nonempty⟩ rfl hin
    · exact .gone h.failed h.stdout rfl
  · have heq : s.onFgets size = { s with stdin := afterLine isNewline (size - 1) s.stdin }.onWriten
        size (.loop (cstr (firstLine isNewline (size - 1) s.stdin))) := by
      rw [Session.onFgets]
      simp only [if_neg (firstLine_ne_nil hpos hin)]
    rw [heq]
    rcases h.of_fgets hc with ⟨printed, h, hs, hu⟩ | ⟨h, hu⟩
    · have hask : Asking size input printed (firstLine isNewline (size - 1) s.stdin) []
          (cstr (firstLine isNewline (size - 1) s.stdin))
          { s with stdin := afterLine isNewline (size - 1) s.stdin } := by
        refine ⟨?_, h.stdout, h.answered, ?_, fun halive => ?_, hs, h.nonempty⟩
        · rw [h.all, inputLines, inputLines, lines_of_ne_nil hpos hin]
        · rw [h.toClient]
          exact List.nil_prefix
        · obtain ⟨hleft, hto⟩ := h.quiet halive
          simp [h.toClient, hleft, hto]
      exact hask.onWriten hu
    · exact Cut.onWriten hsize ⟨h.failed, h.stdout, h.toClient⟩ hu

lemma onWrite_bytes_pos {k : ℕ} (hk : 0 < k) :
    Writen.onWrite bytes (.bytes k) = .loop (bytes.drop k) := by
  rw [Writen.onWrite, if_neg (by omega)]

/-- What follows when the connection ends while the client waits. -/
structure Ended (s t : Session) (got : List UInt8) : Prop where
  toServer : t.toServer = s.toServer
  toClient : t.toClient = s.toClient
  stdin : t.stdin = s.stdin
  server : t.server = s.server
  client : t.stdout = s.stdout ∧ t.client.closed ∨
    got ≠ [] ∧ t.stdout = s.stdout ++ got ∧ t.client = .fgets ∧ t.static.unread = []

/-- The end of the connection, or an error, is what `Readline` finds next. -/
lemma ended_onReadline {a : Arrival} (hsize : 2 ≤ size)
    (hr : Source.reads ⟨s.static, arrivals⟩ = got.map .byte)
    (hb : readline size ⟨s.static, arrivals⟩ = none) (hzero : 0 ∉ got)
    (ha : a = .eof ∨ a = .error) : Ended s (s.onReadline size (arrivals ++ [a])) got := by
  rcases ha with rfl | rfl
  · obtain ⟨st, hu, heq⟩ := onReadline_of_eof hsize hr hb hzero
    rw [heq]
    by_cases hnil : got = []
    · rw [if_pos hnil]
      exact ⟨rfl, rfl, rfl, rfl, .inl ⟨rfl, rfl⟩⟩
    · rw [if_neg hnil]
      exact ⟨rfl, rfl, rfl, rfl, .inr ⟨hnil, rfl, rfl, hu⟩⟩
  · obtain ⟨st, heq⟩ := onReadline_of_error hr hb
    rw [heq]
    exact ⟨rfl, rfl, rfl, rfl, .inl ⟨rfl, rfl⟩⟩

/-- What the waiting client has found so far. -/
lemma Phase.found (hsize : 2 ≤ size) (h : Phase size input s) (hc : s.client = .readline arrivals) :
    ∃ got, Source.reads ⟨s.static, arrivals⟩ = got.map .byte ∧
      readline size ⟨s.static, arrivals⟩ = none ∧ 0 ∉ got ∧ s.stdout ++ got <+: input := by
  have hout := h.stdout_isPrefix hsize
  rcases h.of_readline hc with ⟨printed, line, got, h, hr, hb⟩ | ⟨h, hr⟩
  · exact ⟨got, hr, hb, h.zero_notMem, h.printed_got hsize⟩
  · exact ⟨[], hr, readline_none_of_nil hsize hr, by simp, by simpa using hout⟩

/-- The client waits, and the connection ends. -/
lemma phase_onEnd {a : Arrival} (hsize : 2 ≤ size) (hs : s.server = .failed)
    (hto : s.toClient = []) (hr : Source.reads ⟨s.static, arrivals⟩ = got.map .byte)
    (hb : readline size ⟨s.static, arrivals⟩ = none) (hzero : 0 ∉ got)
    (hout : s.stdout ++ got <+: input) (ha : a = .eof ∨ a = .error) :
    Phase size input (s.onReadline size (arrivals ++ [a])) := by
  have hended := ended_onReadline hsize hr hb hzero ha
  rcases hended.client with ⟨hsame, hclosed⟩ | ⟨-, hprinted, hc, hu⟩
  · refine .gone (hended.server.trans hs) ?_ hclosed
    rw [hsame]
    exact (List.prefix_append s.stdout got).trans hout
  · exact .cut ⟨hended.server.trans hs, by rwa [hprinted], hended.toClient.trans hto⟩ (.inl hc) hu

variable {capacity : ℕ} {a : Act}

theorem phase_step (hsize : 2 ≤ size) (h : Phase size input s) (hst : Step size capacity a s t) :
    Phase size input t := by
  cases hst with
  | fgets hc => exact phase_onFgets hsize h hc
  | clientWrote hc hk hle hroom =>
    obtain ⟨hne, hu, ⟨printed, line, ha⟩ | hcut⟩ := h.of_writen hc
    · rw [onWrite_bytes_pos hk]
      refine Asking.onWriten ⟨ha.all, ha.stdout, ha.answered, ha.answer, fun halive => ?_,
        ha.serving, ha.nonempty⟩ hu
      rw [← ha.going halive]
      simp
    · rw [onWrite_bytes_pos hk]
      exact Cut.onWriten hsize ⟨hcut.failed, hcut.stdout, hcut.toClient⟩ hu
  | @clientRead _ arrivals k hc hk hle hmax =>
    rcases h.of_readline hc with ⟨printed, line, got, ha, hr, hb⟩ | ⟨hcut, _⟩
    · have hask : Asking size input printed line (got ++ s.toClient.take k) []
          { s with toClient := s.toClient.drop k } := by
        refine ⟨ha.all, ha.stdout, ha.answered, ?_, fun halive => ?_, ha.serving, ha.nonempty⟩
        · rw [List.append_assoc, List.take_append_drop]
          exact ha.answer
        · rw [← ha.going halive, List.append_assoc got, List.take_append_drop]
      refine hask.onReadline ?_
      rw [reads_append, hr, flatMap_reads_putBack]
      simp
    · rw [hcut.toClient, List.length_nil] at hle
      omega
  | clientEof hc hempty hs =>
    have hfailed : s.server = .failed := by
      rcases h.of_readline hc with ⟨printed, line, got, ha, hr, hb⟩ | ⟨hcut, _⟩
      · have hserving := ha.serving
        cases hserver : s.server <;> simp_all [StrEcho.closed]
      · exact hcut.failed
    obtain ⟨got, hr, hb, hzero, hout⟩ := h.found hsize hc
    exact phase_onEnd hsize hfailed hempty hr hb hzero hout (.inl rfl)
  | readFailed hc hs =>
    obtain ⟨got, hr, hb, hzero, hout⟩ := h.found hsize hc
    exact phase_onEnd (s := { s with toClient := [] }) hsize hs rfl hr hb hzero hout (.inr rfl)
  | writeFailed hc hs =>
    have hout := h.stdout_isPrefix hsize
    exact .gone hs hout rfl
  | @readInterrupted _ arrivals hc =>
    have hreads : Source.reads ⟨s.static, arrivals ++ [.eintr]⟩
        = Source.reads ⟨s.static, arrivals⟩ := by
      rw [reads_append]
      simp [Arrival.reads]
    rcases h.of_readline hc with ⟨printed, line, got, ha, hr, hb⟩ | ⟨hcut, hr⟩
    · exact ha.onReadline (hreads.trans hr)
    · exact hcut.onReadline hsize (hreads.trans hr)
  | writeInterrupted hc =>
    obtain ⟨hne, hu, ⟨printed, line, ha⟩ | hcut⟩ := h.of_writen hc
    · exact ha.onWriten hu
    · exact hcut.onWriten hsize hu
  | @serverRead _ k hs hk hle hmax =>
    refine h.server (serverMoves_of_loop (s.toServer.take k) (by simp [hs]) ?_ rfl)
    simp [hs]
  | serverEof hs hempty hc =>
    refine h.server ⟨rfl, rfl, rfl, rfl, fun ht => ?_, fun _ => by simp [hs], fun _ => ?_, ?_,
      fun _ => hc⟩
    · cases ht
    · simp [hs, StrEcho.onRead]
    · simp [StrEcho.onRead]
  | @serverWrote _ bytes k hs hk hle hroom =>
    rw [onWrite_of_pos hk]
    refine h.server (serverMoves_of_loop (bytes.drop k) (by simp [hs]) ?_ rfl)
    simp [hs]
  | serverReadInterrupted hs =>
    refine h.server ⟨rfl, rfl, rfl, rfl, fun ht => ?_, fun _ => by simp [hs], fun _ => ?_, ?_, ?_⟩
    · cases ht
    · simp [hs, StrEcho.onRead]
    · simp [StrEcho.onRead]
    · simp [StrEcho.onRead]
  | @serverWriteInterrupted _ bytes hs =>
    refine h.server (serverMoves_of_loop bytes (by simp [hs]) ?_ rfl)
    simp [hs]
  | serverFailed hopen =>
    refine h.server ⟨rfl, rfl, rfl, rfl, fun _ => rfl, fun ht => ?_, fun ht => ?_, by simp,
      by simp⟩
    · exact absurd rfl ht
    · exact absurd rfl ht

lemma phase_start (input : List UInt8) : Phase size input (Session.start input) := by
  refine .idle [] ⟨rfl, rfl, by simp, rfl, fun _ => ⟨rfl, rfl⟩, by simp [Session.start]⟩ rfl
    (by simp [Session.start]) ?_
  exact unread_of_nonpos le_rfl

/-- The phases of a run. -/
lemma phase_of_trace (hsize : 2 ≤ size) {acts : List Act}
    (h : Trace (Step size capacity) (Session.start input) acts s) : Phase size input s :=
  h.invariant (fun _ _ _ hs hst => phase_step hsize hs hst) (phase_start input)

/-- A session in which a single line is answered. -/
lemma sample_run : ∃ acts s, Trace (Step 3 2) (Session.start [104, 10]) acts s ∧
    s.client = .returned ∧ s.server = .returned := by
  refine ⟨_, _, .cons (.fgets rfl) (.cons (@Step.clientWrote 3 2 _ [104, 10] 2 rfl ?_ ?_ ?_)
    (.cons (@Step.serverRead 3 2 _ 2 rfl ?_ ?_ ?_) (.cons (@Step.serverWrote 3 2 _ [104, 10] 2 rfl
      ?_ ?_ ?_) (.cons (@Step.clientRead 3 2 _ [] 2 rfl ?_ ?_ ?_) (.cons (.fgets rfl)
        (.cons (.serverEof rfl rfl rfl) (.nil _))))))), rfl, rfl⟩
  all_goals decide

/-- Whatever happens, the client has printed a beginning of its input; and all of it if it has
ended and the server has not failed. -/
theorem printed_in_order (hsize : 2 ≤ size) {acts : List Act}
    (h : Trace (Step size capacity) (Session.start input) acts s) :
    s.stdout <+: input ∧ (s.client.closed → s.server ≠ .failed → s.stdout = input) := by
  have hphase := phase_of_trace hsize h
  refine ⟨hphase.stdout_isPrefix hsize, fun hclosed halive => ?_⟩
  cases hphase with
  | finished printed h hc hin =>
    rw [input_eq hsize h.all, h.stdout, hin]
    simp [inputLines]
  | idle _ _ hc _ _ => simp [hc, Client.closed] at hclosed
  | sending _ _ _ _ hc _ _ => simp [hc, Client.closed] at hclosed
  | waiting _ _ _ _ _ hc _ _ => simp [hc, Client.closed] at hclosed
  | cut h _ _ => exact absurd h.failed halive
  | cutWaiting _ h _ _ => exact absurd h.failed halive
  | gone hs _ _ => exact absurd hs halive

theorem printed_in_order_sample : ∃ s : Session, s.client = .returned ∧ s.stdout = [104, 10] := by
  obtain ⟨acts, s, h, hc, hs⟩ := sample_run
  exact ⟨s, hc, (printed_in_order (by decide) h).2 (by rw [hc]; rfl) (by simp [hs])⟩

end CppExample.Echo.StopAndWait
