/-
# The libev echo client

The callbacks of `libev/demo1_echo_client.cpp`: `stdin_cb` for the terminal, and `conn_cb` for the
connection.  The two watchers share an `io_buf`, in which neither of them leaves anything behind.
Nothing is done at the end of the input: `stdin_cb` writes no bytes, and its watcher stays started.

`connfd` is a blocking socket, so that `write` takes all that it is given; after `close` it takes
nothing.  Writing to the terminal does not fail.
-/
import CppExample.Libev.EchoServer

namespace CppExample.Libev
open Lib

/-- What `read` returns. -/
inductive Reply where
  /-- At the end of the file there are no bytes. -/
  | data (bytes : List UInt8)
  /-- -1, and `errno` is `EAGAIN`. -/
  | again
  /-- -1 with another error. -/
  | error
deriving DecidableEq, Repr

/-- The bytes that `read` has returned. -/
def Reply.bytes : Reply → List UInt8
  | data bytes => bytes
  | _ => []

/-- The `io_buf` of the watchers, and whether `socket_watcher` is started and `connfd` is open. -/
structure Client where
  data : List UInt8
  len : ℕ
  connected : Bool
deriving DecidableEq, Repr

namespace Client

/-- The client when its loop begins. -/
def start : Client := ⟨List.replicate bufferSize 0, 0, true⟩

/-- The bytes are read into the buffer and given to `write`; then the buffer is cleared. -/
def passOn (c : Client) (bytes : List UInt8) : Except Fault (Client × List UInt8) := do
  let data ← store c.data 0 bytes
  let given ← slice data 0 bytes.length
  return ({ c with data := List.replicate bufferSize 0, len := 0 }, given)

/-- `stdin_cb`, with what it gives to `write`. -/
def stdinCb (c : Client) : Reply → Except Fault (Client × List UInt8)
  | .data bytes => c.passOn bytes
  | .again | .error => .ok (c, [])

/-- `conn_cb`, with what it gives to `write`. -/
def connCb (c : Client) : Reply → Except Fault (Client × List UInt8)
  | .data [] | .error => .ok ({ c with connected := false }, [])
  | .data bytes => c.passOn bytes
  | .again => .ok (c, [])

/-- There is nothing in the buffer. -/
def Empty (c : Client) : Prop := c.data = List.replicate bufferSize 0 ∧ c.len = 0

variable {c d : Client} {bytes given : List UInt8} {r : Reply}

/-- The same bytes are given to `write`, and the buffer is empty as before. -/
lemma Empty.passOn_eq (h : c.Empty) (hlen : bytes.length ≤ bufferSize) :
    c.passOn bytes = .ok (c, bytes) := by
  have hstore := @store_append_replicate _ [] bytes 0 bufferSize 0 rfl hlen
  have hslice : slice (bytes ++ List.replicate (bufferSize - bytes.length) 0) 0 bytes.length
      = .ok bytes := by
    rw [slice, if_pos (by simp)]
    simp
  rw [List.nil_append, List.nil_append] at hstore
  have hc : { c with data := List.replicate bufferSize 0, len := 0 } = c := by
    obtain ⟨hdata, hzero⟩ := h
    rw [← hdata, ← hzero]
  rw [passOn, h.1, hstore]
  simp only [ok_bind, hslice, hc]
  rfl

lemma Empty.stdinCb (h : c.Empty) (hlen : r.bytes.length ≤ bufferSize)
    (hst : c.stdinCb r = .ok (d, given)) : d = c ∧ given = r.bytes := by
  have heq : c.stdinCb r = .ok (c, r.bytes) := by
    cases r with
    | data bytes => exact h.passOn_eq hlen
    | again => rfl
    | error => rfl
  obtain ⟨rfl, rfl⟩ := Prod.mk.inj (Except.ok.inj (heq.symm.trans hst))
  exact ⟨rfl, rfl⟩

lemma Empty.connCb (h : c.Empty) (hlen : r.bytes.length ≤ bufferSize) (heof : r ≠ .data [])
    (herror : r ≠ .error) (hst : c.connCb r = .ok (d, given)) : d = c ∧ given = r.bytes := by
  have heq : c.connCb r = .ok (c, r.bytes) := by
    cases r with
    | data bytes =>
      cases bytes with
      | nil => exact absurd rfl heof
      | cons b bytes => exact h.passOn_eq hlen
    | again => rfl
    | error => exact absurd rfl herror
  obtain ⟨rfl, rfl⟩ := Prod.mk.inj (Except.ok.inj (heq.symm.trans hst))
  exact ⟨rfl, rfl⟩

end Client

end CppExample.Libev
