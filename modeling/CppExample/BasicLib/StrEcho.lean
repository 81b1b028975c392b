/-
# Writing all of a buffer, and echoing

`writen` of `basic_lib/writen.c` and `str_echo` of `basic_lib/str_echo.c`.  A call of `write` may
take a part of what it is given, and `writen` goes on with the rest.  `str_echo` reads into a
buffer and gives what it has read to `Writen`, until there is nothing more.

What the client sends and how much the calls of `read` and `write` transfer is up to the
environment.  In all runs the bytes that were read are those that were written and those that
`writen` still has, which are never more than the buffer has room for: `Server.Exact`.  So a
client that is served to the end gets back exactly what it has sent.
-/
import CppExample.Lib.Run
import CppExample.BasicLib.Readline

namespace CppExample.BasicLib
open Lib

/-- What a call of `write` returns. -/
inductive Wrote where
  | bytes (k : ℕ)
  /-- -1, and `errno` is `EINTR`. -/
  | eintr
  /-- -1 with another error. -/
  | error
deriving DecidableEq, Repr

/-- Where `writen` is. -/
inductive Writen where
  /-- At `write`, with the bytes from `ptr` on. -/
  | left (bytes : List UInt8)
  | returned
  /-- It has returned -1. -/
  | failed
deriving DecidableEq, Repr

/-- `writen` at the condition of its loop. -/
def Writen.loop (bytes : List UInt8) : Writen := if bytes = [] then returned else left bytes

/-- `write` returns. -/
def Writen.onWrite (bytes : List UInt8) : Wrote → Writen
  | .bytes k => if k = 0 then failed else loop (bytes.drop k)
  | .eintr => loop bytes
  | .error => failed

/-- Where `str_echo` is. -/
inductive StrEcho where
  /-- At `read`. -/
  | reading
  /-- In `Writen`, at `write`. -/
  | writing (left : List UInt8)
  | returned
  /-- In `err_sys`, which ends the process. -/
  | failed
deriving DecidableEq, Repr

/-- The loop of `str_echo` and `Writen`. -/
def StrEcho.onWriten : Writen → StrEcho
  | .left bytes => writing bytes
  | .returned => reading
  | .failed => failed

/-- What `read` returns in `str_echo`, with the data. -/
inductive Reply where
  | data (bytes : List UInt8)
  | eof
  | eintr
  | error
deriving DecidableEq, Repr

/-- `read` returns. -/
def StrEcho.onRead : Reply → StrEcho
  | .data bytes => onWriten (.loop bytes)
  | .eof => returned
  | .eintr => reading
  | .error => failed

/-- `write` returns. -/
def StrEcho.onWrite (left : List UInt8) (r : Wrote) : StrEcho := onWriten (.onWrite left r)

/-- The connection is closed: `str_echo` has returned, or the process has ended. -/
def StrEcho.closed : StrEcho → Bool
  | returned | failed => true
  | _ => false

/-- What is still to be written. -/
def StrEcho.left : StrEcho → List UInt8
  | writing bytes => bytes
  | _ => []

variable {bytes : List UInt8} {k : ℕ}

@[simp] lemma left_reading : StrEcho.reading.left = [] := rfl

@[simp] lemma left_returned : StrEcho.returned.left = [] := rfl

@[simp] lemma left_writing : (StrEcho.writing bytes).left = bytes := rfl

@[simp] lemma left_onWriten_loop (bytes : List UInt8) :
    (StrEcho.onWriten (.loop bytes)).left = bytes := by
  by_cases h : bytes = [] <;> simp [Writen.loop, StrEcho.onWriten, StrEcho.left, h]

lemma onWrite_of_pos (hk : 0 < k) :
    StrEcho.onWrite bytes (.bytes k) = .onWriten (.loop (bytes.drop k)) := by
  rw [StrEcho.onWrite, Writen.onWrite, if_neg (by omega)]

/-- `writen` goes back to `read` or writes on. -/
lemma onWriten_loop_cases (bytes : List UInt8) :
    bytes = [] ∧ StrEcho.onWriten (.loop bytes) = .reading ∨
      bytes ≠ [] ∧ StrEcho.onWriten (.loop bytes) = .writing bytes := by
  by_cases h : bytes = []
  · exact .inl ⟨h, by rw [h]; rfl⟩
  · exact .inr ⟨h, by rw [Writen.loop, if_neg h]; rfl⟩

/-! ## Any client -/

/-- `str_echo`, with what it has read and written. -/
structure Server where
  echo : StrEcho
  received : List UInt8
  sent : List UInt8
deriving DecidableEq, Repr

namespace Server

def start : Server := ⟨.reading, [], []⟩

/-- The calls of `str_echo`. -/
inductive Step : Server → Server → Prop
  | read {s : Server} {bytes : List UInt8} (h : s.echo = .reading) (hpos : bytes ≠ [])
      (hlen : bytes.length ≤ maxline) :
      Step s { s with echo := .onRead (.data bytes), received := s.received ++ bytes }
  | readOther {s : Server} {r : Reply} (h : s.echo = .reading) (hr : ∀ bytes, r ≠ .data bytes) :
      Step s { s with echo := .onRead r }
  | write {s : Server} {left : List UInt8} {k : ℕ} (h : s.echo = .writing left)
      (hk : k ≤ left.length) :
      Step s { s with echo := .onWrite left (.bytes k), sent := s.sent ++ left.take k }
  | writeOther {s : Server} {left : List UInt8} {r : Wrote} (h : s.echo = .writing left)
      (hr : ∀ k, r ≠ .bytes k) :
      Step s { s with echo := .onWrite left r }

/-- What is written is the beginning of what was read.  Unless writing has failed, the rest is what
`writen` still has, and it fits into the buffer. -/
structure Exact (s : Server) : Prop where
  sent : s.sent <+: s.received
  behind : s.received.length ≤ s.sent.length + maxline
  going : s.echo ≠ .failed → s.sent ++ s.echo.left = s.received
  nonempty : s.echo ≠ .writing []

variable {s t : Server}

lemma exact_of_loop (rest : List UInt8) (hsent : s.sent ++ rest = s.received)
    (hecho : s.echo = .onWriten (.loop rest)) (hlen : rest.length ≤ maxline) : s.Exact := by
  have hleft : s.echo.left = rest := by rw [hecho, left_onWriten_loop]
  refine ⟨⟨rest, hsent⟩, ?_, fun _ => by rw [hleft, hsent], fun hw => ?_⟩
  · rw [← hsent, List.length_append]
    omega
  · rcases onWriten_loop_cases rest with ⟨-, h⟩ | ⟨hne, h⟩
    · rw [hecho, h] at hw
      cases hw
    · rw [hecho, h] at hw
      injection hw with hnil
      exact hne hnil

lemma Exact.failed (h : s.Exact) (ht : t = { s with echo := .failed }) : t.Exact := by
  subst ht
  exact ⟨h.sent, h.behind, fun hne => absurd rfl hne, by simp⟩

lemma step_exact (h : Step s t) (hs : s.Exact) : t.Exact := by
  have hroom : ∀ left, s.echo = .writing left →
      s.sent ++ left = s.received ∧ left.length ≤ maxline := by
    intro left hw
    have heq := hs.going (by simp [hw])
    have hbehind := hs.behind
    rw [hw, left_writing] at heq
    rw [← heq, List.length_append] at hbehind
    exact ⟨heq, by omega⟩
  cases h with
  | @read bytes h hpos hlen =>
    have heq := hs.going (by simp [h])
    rw [h, left_reading, List.append_nil] at heq
    exact exact_of_loop bytes (by rw [heq]) rfl hlen
  | @readOther r h hr =>
    have heq := hs.going (by simp [h])
    rw [h] at heq
    cases r with
    | data bytes => exact absurd rfl (hr bytes)
    | eof => exact ⟨hs.sent, hs.behind, fun _ => heq, by simp [StrEcho.onRead]⟩
    | eintr => exact ⟨hs.sent, hs.behind, fun _ => heq, by simp [StrEcho.onRead]⟩
    | error => exact hs.failed rfl
  | @write left k h hk =>
    obtain ⟨heq, hlen⟩ := hroom left h
    by_cases hzero : k = 0
    · subst hzero
      exact hs.failed (by simp [StrEcho.onWrite, Writen.onWrite, StrEcho.onWriten])
    · refine exact_of_loop (left.drop k) ?_ (onWrite_of_pos (by omega)) ?_
      · rw [List.append_assoc, List.take_append_drop, heq]
      · rw [List.length_drop]
        omega
  | @writeOther left r h hr =>
    obtain ⟨heq, hlen⟩ := hroom left h
    cases r with
    | bytes k => exact absurd rfl (hr k)
    | eintr => exact exact_of_loop left heq rfl hlen
    | error => exact hs.failed rfl

/-- In every run of `str_echo`, whatever its client and the system do, it has written the
beginning of what it has read, at most a buffer less; and all of it at each call of `read` and when
it returns. -/
theorem echo_exact (h : Reachable (· = start) Step s) :
    s.sent <+: s.received ∧ s.received.length ≤ s.sent.length + maxline ∧
      (s.echo = .reading ∨ s.echo = .returned → s.sent = s.received) := by
  have hexact : s.Exact := h.invariant
    (fun s₀ h₀ => by
      subst h₀
      exact ⟨List.prefix_rfl, Nat.zero_le _, fun _ => rfl, by simp [start]⟩)
    fun _ _ _ hs hst => step_exact hst hs
  refine ⟨hexact.sent, hexact.behind, fun hpc => ?_⟩
  have hleft : s.echo.left = [] := by
    rcases hpc with hpc | hpc <;> simp [hpc]
  have heq := hexact.going (by rcases hpc with hpc | hpc <;> simp [hpc])
  rwa [hleft, List.append_nil] at heq

/-- Two bytes are read, and written in two calls. -/
theorem echo_exact_sample : ∃ s : Server, s.echo = .reading ∧ s.received = [104, 105] ∧
    s.sent = s.received := by
  have h : Reachable (· = start) Step start := .of_init rfl
  have h := h.tail (@Step.read _ [104, 105] rfl (by decide) (by decide))
  have h := h.tail (@Step.write _ [104, 105] 1 rfl (by decide))
  have h := h.tail (@Step.writeOther _ [105] .eintr rfl (by simp))
  have h := h.tail (@Step.write _ [105] 1 rfl (by decide))
  exact ⟨_, rfl, rfl, (echo_exact h).2.2 (.inl rfl)⟩

end Server

end CppExample.BasicLib
