/-
# The reactor of the c1000k server

`reactor_lookup` and `reactor_resize` of `network/demo4_c1000k_server.cpp`, with the structs
they work on.  The table of connection contexts is a linked list of blocks, each with a
pointer to an array of `ITEM_LENGTH` items; it grows at the end.

An object is named by the number of the call of `malloc` that created it, so that its
address is never that of another object.  Which of the calls succeed is given by `ok`.
-/
import CppExample.Lib.Heap

namespace CppExample.C1000k
open Lib

/-- A non-null pointer. -/
abbrev Addr := ℕ

/-- `BUFFER_LENGTH`. -/
def bufferLength : ℕ := 128

/-- `ITEM_LENGTH`. -/
def itemLength : ℕ := 1024

/-- `sock_item`, less the members that the program does not use. -/
structure SockItem where
  fd : ℤ
  rbuf : Option Addr
  rlen : ℤ
  wbuf : Option Addr
  wlen : ℤ
deriving DecidableEq, Repr

/-- An item as `memset` leaves it. -/
def SockItem.zero : SockItem := ⟨0, none, 0, none, 0⟩

/-- `eventblock`. -/
structure EventBlock where
  items : Addr
  next : Option Addr
deriving DecidableEq, Repr

/-- `reactor`; `epoll_fd` is not used by the table. -/
structure Reactor where
  blockCount : ℕ
  eventblocks : Option Addr
deriving DecidableEq, Repr

/-- The live objects: the blocks of the reactor, the arrays of items, and the buffers of the
connections. -/
structure Heap where
  blocks : Addr → Option EventBlock
  arrays : Addr → Option (List SockItem)
  buffers : Addr → Option (List UInt8)

/-- The reactor, the memory, and the number of calls of `malloc` and `calloc` so far. -/
structure World where
  r : Reactor
  heap : Heap
  calls : ℕ

/-- A pointer to an item. -/
structure ItemPtr where
  array : Addr
  index : ℕ
deriving DecidableEq, Repr

/-- The zeroed reactor, with nothing allocated. -/
def World.zero : World := ⟨⟨0, none⟩, ⟨fun _ => none, fun _ => none, fun _ => none⟩, 0⟩

namespace World

/-- A call of `malloc`. -/
def malloc (ok : ℕ → Bool) (w : World) : Option Addr × World :=
  (if ok w.calls then some w.calls else none, { w with calls := w.calls + 1 })

lemma malloc_of_ok {ok : ℕ → Bool} {w : World} (h : ok w.calls = true) :
    w.malloc ok = (some w.calls, { w with calls := w.calls + 1 }) := by
  rw [malloc, if_pos h]

lemma malloc_of_fail {ok : ℕ → Bool} {w : World} (h : ok w.calls = false) :
    w.malloc ok = (none, { w with calls := w.calls + 1 }) := by
  rw [malloc, h, if_neg Bool.false_ne_true]

/-- Write a block. -/
def setBlock (w : World) (a : Addr) (b : EventBlock) : World :=
  { w with heap := { w.heap with blocks := Function.update w.heap.blocks a (some b) } }

/-- Write, or free, an array of items. -/
def setArray (w : World) (a : Addr) (items : Option (List SockItem)) : World :=
  { w with heap := { w.heap with arrays := Function.update w.heap.arrays a items } }

/-- Read an item. -/
def readItem (w : World) (p : ItemPtr) : Except Fault SockItem := do
  let items ← deref w.heap.arrays (some p.array)
  load items p.index

/-- Write an item. -/
def writeItem (w : World) (p : ItemPtr) (item : SockItem) : Except Fault World := do
  let items ← deref w.heap.arrays (some p.array)
  let items ← store items p.index [item]
  return w.setArray p.array (some items)

end World

/-- The loop of `reactor_resize` that goes to the end of the list, from a block on. -/
def lastLoop (blocks : Addr → Option EventBlock) : ℕ → Addr → Except Fault Addr
  | 0, _ => .error .fuel
  | fuel + 1, cur => do
    let b ← deref blocks (some cur)
    match b.next with
    | none => return cur
    | some a => lastLoop blocks fuel a

/-- The last block of the list, if there is one. -/
def lastBlock (fuel : ℕ) (w : World) : Except Fault (Option Addr) :=
  match w.r.eventblocks with
  | none => .ok none
  | some a => do
    let cur ← lastLoop w.heap.blocks fuel a
    return some cur

/-- The end of `reactor_resize`: hang the new block behind `cur`, and count it. -/
def appendBlock (w : World) (cur : Option Addr) (block : Addr) : Except Fault World :=
  match cur with
  | none => .ok { w with r := ⟨w.r.blockCount + 1, some block⟩ }
  | some c => do
    let b ← deref w.heap.blocks (some c)
    let w := w.setBlock c { b with next := some block }
    return { w with r := ⟨w.r.blockCount + 1, w.r.eventblocks⟩ }

/-- `reactor_resize`, with a budget for the walk to the end of the list. -/
def reactorResize (ok : ℕ → Bool) (fuel : ℕ) (w : World) : Except Fault (ℤ × World) := do
  let cur ← lastBlock fuel w
  match w.malloc ok with
  | (none, w) => return (-4, w)
  | (some item, w) =>
    let w := w.setArray item (some (List.replicate itemLength SockItem.zero))
    match w.malloc ok with
    | (none, w) => return (-5, w.setArray item none)
    | (some block, w) =>
      let w ← appendBlock (w.setBlock block ⟨item, none⟩) cur block
      return (0, w)

/-- The loop of `reactor_lookup` that grows the table.  The result of `reactor_resize` is
not looked at.  `bound` is the budget of each call of `reactor_resize`. -/
def growLoop (ok : ℕ → Bool) (bound blockIdx : ℕ) : ℕ → World → Except Fault World
  | 0, _ => .error .fuel
  | fuel + 1, w =>
    if w.r.blockCount ≤ blockIdx then do
      let (_, w) ← reactorResize ok bound w
      growLoop ok bound blockIdx fuel w
    else .ok w

/-- The loop of `reactor_lookup` that walks to a block. -/
def walkLoop (blocks : Addr → Option EventBlock) : ℕ → Option Addr → Except Fault (Option Addr)
  | 0, cur => .ok cur
  | _ + 1, none => .ok none
  | n + 1, some a => do
    let b ← deref blocks (some a)
    walkLoop blocks n b.next

/-- `reactor_lookup`, with a budget for its loops. -/
def reactorLookup (ok : ℕ → Bool) (fuel : ℕ) (w : World) (clientfd : ℤ) :
    Except Fault (Option ItemPtr × World) :=
  if clientfd ≤ 0 then .ok (none, w)
  else do
    let blockIdx := clientfd.toNat / itemLength
    let w ← growLoop ok fuel blockIdx fuel w
    let cur ← walkLoop w.heap.blocks blockIdx w.r.eventblocks
    let b ← deref w.heap.blocks cur
    return (some ⟨b.items, clientfd.toNat % itemLength⟩, w)

/-- The call returns the item `p` and leaves the world `w'`: so it does with every budget
that is large enough. -/
def Returns (ok : ℕ → Bool) (w : World) (clientfd : ℤ) (p : ItemPtr) (w' : World) : Prop :=
  ∃ n, ∀ fuel, n ≤ fuel → reactorLookup ok fuel w clientfd = .ok (some p, w')

end CppExample.C1000k
