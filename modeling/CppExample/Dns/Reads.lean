/-
# What the parser reads of the packet

The cursor of `dns_parse_response` goes where the bytes of the packet send it.  What was stored on
the way, in `aname`, `cname` and the list, it never asks.  So the reads of the packet are those of
a program that stores nothing: `nameReads`, `answerReads` and `responseReads` are the functions of
the parser without their arrays.

There is a read for each read of the parser, up to the end of its run or to the first access that
leaves one of its own arrays, see `responseReads_until`.  C does not say what comes after such an
access.  Here nothing comes of it: the parser reads on, on the same packet.
-/
import CppExample.Dns.Rounds

namespace CppExample.Dns
open Lib

/-- The reads of `dns_parse_name`. -/
def nameReads : ℕ → List UInt8 → ℕ → Except Fault Unit
  | 0, _, _ => throw .fuel
  | fuel + 1, chunk, ptr => do
      let flag ← load chunk ptr
      if flag = 0 then
        return ()
      else if isPointer flag then
        let n ← load chunk (ptr + 1)
        nameReads fuel chunk n.toNat
      else
        let ptr := ptr + 1
        let _label ← slice chunk ptr flag.toNat
        let ptr := ptr + flag.toNat
        let _next ← load chunk ptr
        nameReads fuel chunk ptr

/-- The reads of a round of the answer loop, and the new value of `ptr`. -/
def answerReads (fuel : ℕ) (buffer : List UInt8) (ptr : ℕ) : Except Fault ℕ := do
  nameReads fuel buffer ptr
  let ptr := ptr + 2
  let type := htons (← loadShort buffer ptr)
  let ptr := ptr + 2
  let _qclass := htons (← loadShort buffer ptr)
  let ptr := ptr + 2
  let _ttl := htons (← loadShort buffer ptr)
  let ptr := ptr + 4
  let datalen := (htons (← loadShort buffer ptr)).toNat
  let ptr := ptr + 2
  if type = dnsCname then
    nameReads fuel buffer ptr
    return ptr + datalen
  else if type = dnsHost then
    if datalen = 4 then
      let _netip ← slice buffer ptr datalen
      return ptr + datalen
    else
      return ptr + datalen
  else
    return ptr

/-- The reads of the answer loop, with `answers` rounds to go. -/
def answersReads (fuel : ℕ) (buffer : List UInt8) : ℕ → ℕ → Except Fault ℕ
  | 0, ptr => return ptr
  | answers + 1, ptr => do
      let ptr ← answerReads fuel buffer ptr
      answersReads fuel buffer answers ptr

/-- The reads of `dns_parse_response`. -/
def responseReads (fuel : ℕ) (calloc : Bool) (buffer : List UInt8) : Except Fault Unit := do
  let (_, answers, ptr) ← parseHead fuel buffer
  if calloc then
    let _ptr ← answersReads fuel buffer answers ptr
    return ()
  else
    return ()

variable {buf : List UInt8} {p : ℕ}

/-! ## The parser and its reads -/

/-- An access outside of an array of the parser; all of these are shorter than the packet. -/
def Own (buf : List UInt8) (e : Fault) : Prop :=
  (∃ i, e = .write i) ∨ ∃ i, e = .read i ∧ i < buf.length

/-- With room for all that it may write, the loop goes wrong only by a read of the packet. -/
lemma nameReads_eq_loop (fuel : ℕ) : ∀ {p pos : ℕ} {out : List UInt8} {len : ℕ},
    pos + 192 * fuel ≤ out.length →
      nameReads fuel buf p = parseNameLoop fuel buf p pos out len >>= fun _ => .ok () := by
  induction fuel with
  | zero => exact fun _ => rfl
  | succ fuel ih =>
    intro p pos out len hroom
    rw [nameReads, parseNameLoop, bind_assoc]
    refine bind_congr_ok fun flag _ => ?_
    split
    · rfl
    · split
      · rw [bind_assoc]
        exact bind_congr_ok fun n _ => ih (by omega)
      · next hp =>
        have hflag : flag.toNat < 192 := by
          rw [isPointer_iff] at hp
          omega
        dsimp only
        rw [bind_assoc]
        refine bind_congr_ok fun label hslice => ?_
        have hlen := (of_slice hslice).1
        obtain ⟨out₁, hout₁, hlen₁⟩ := @exists_store _ out label pos (by omega)
        rw [hout₁, ok_bind, bind_assoc]
        refine bind_congr_ok fun next _ => ?_
        split
        · obtain ⟨out₂, hout₂, hlen₂⟩ := @exists_store _ out₁ [dot] (pos + flag.toNat)
            (by rw [List.length_singleton]; omega)
          rw [hout₂, ok_bind]
          exact ih (by omega)
        · exact ih (by omega)

lemma nameReads_eq {fuel size : ℕ} (hroom : 192 * fuel ≤ size) (p : ℕ) :
    nameReads fuel buf p
      = dnsParseName fuel buf p (List.replicate size 0) 0 >>= fun _ => .ok () :=
  nameReads_eq_loop fuel (by rwa [List.length_replicate, Nat.zero_add])

end CppExample.Dns
