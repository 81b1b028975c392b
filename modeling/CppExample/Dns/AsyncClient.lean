/-
# The two threads of the asynchronous client

`dns_async_client_commit` runs on the main thread: it makes a socket, sends the query,
allocates an `ep_arg` and adds the socket to the epoll set.  `dns_async_client_proc` runs on
the worker thread: it waits for a batch of events, and for each of them it receives, parses,
calls back, takes the socket out of the epoll set, closes it and frees the `ep_arg`.

The threads share the descriptor table, the epoll set and the memory of the `ep_arg`s.  Both
numbers of descriptors and addresses are reused as soon as they are free.  A query therefore
has a number of its own, which is not in the program: that of its call of
`dns_async_client_commit`.  It stands for the socket made in this call, and an `ep_arg` in
memory carries the number of the query that it was allocated for.
-/
import CppExample.Dns.Fields
import CppExample.Lib.Run

namespace CppExample.Dns.Async
open Lib

/-- `ASYNC_CLIENT_NUM`. -/
def asyncClientNum : ℕ := 1024

/-- `struct ep_arg`.  The callback is null until it is assigned. -/
structure EpArg (Cb : Type) where
  sockfd : ℕ
  cb : Option Cb

/-- An `ep_arg` in memory, and the query that it was allocated for. -/
structure Block (Cb : Type) where
  query : ℕ
  arg : EpArg Cb

/-- An entry of the epoll set: a socket with the number that it was added under, and
`data.ptr`. -/
structure Registration where
  fd : ℕ
  query : ℕ
  data : ℕ
deriving DecidableEq, Repr

/-- The next action of the main thread, with the local variables of
`dns_async_client_commit`. -/
inductive Main (Cb : Type)
  /-- Between two calls. -/
  | idle
  | send (query sockfd : ℕ) (domain : List UInt8) (cb : Cb)
  | calloc (query sockfd : ℕ) (cb : Cb)
  | fill (query sockfd : ℕ) (cb : Cb) (eparg : ℕ)
  | add (query sockfd eparg : ℕ)
  /-- `exit (-1)`. -/
  | exited
  /-- An access through a pointer to no object. -/
  | fault

/-- The next action of the worker, with the local variables of `dns_async_client_proc`; `todo`
are the pointers of the events that are still to come. -/
inductive Worker
  | wait
  | next (todo : List ℕ)
  | recv (data sockfd : ℕ) (todo : List ℕ)
  | callback (data sockfd : ℕ) (todo : List ℕ) (count : ℤ) (domains : Option (List DnsItem))
  | del (data sockfd : ℕ) (todo : List ℕ) (count : ℤ) (domains : Option (List DnsItem))
  | close (data sockfd : ℕ) (todo : List ℕ) (count : ℤ) (domains : Option (List DnsItem))
  | free (data sockfd : ℕ) (todo : List ℕ) (count : ℤ) (domains : Option (List DnsItem))
  /-- `epoll_wait` has failed. -/
  | stopped
  /-- An access through a pointer to no object, or to less than is accessed. -/
  | fault

/-- What the threads do, in the order of time.  Where a call takes a descriptor, the query whose
socket has this number is recorded. -/
inductive Event (Cb : Type)
  /-- A socket was made in a call with this callback. -/
  | committed (query : ℕ) (cb : Cb)
  | sent (socket : Option ℕ) (length : ℕ) (request : List (Option UInt8))
  | allocated (query : ℕ)
  /-- The `ep_arg` was read or written. -/
  | accessed (query : ℕ)
  | registered (query : ℕ)
  | received (socket : Option ℕ) (data : Option (List UInt8))
  | called (query : ℕ) (cb : Cb) (count : ℤ) (domains : Option (List DnsItem))
  | deregistered (fd : ℕ) (socket : Option ℕ)
  | closed (fd : ℕ) (socket : Option ℕ)
  | freed (query : ℕ)

/-- The state of the process: the open sockets under their numbers, the epoll set, the
`ep_arg`s in memory, the number of the next query, the two threads and the log. -/
structure State (Cb : Type) where
  fds : ℕ → Option ℕ
  interest : List Registration
  heap : ℕ → Option (Block Cb)
  queries : ℕ
  main : Main Cb
  worker : Worker
  log : List (Event Cb)

/-- After `dns_async_client_init`. -/
def start (Cb : Type) : State Cb :=
  ⟨fun _ => none, [], fun _ => none, 0, .idle, .wait, []⟩

/-! ## The functions that are called -/

/-- The request that `dns_async_client_commit` builds; `id` is what `random` returned, and
`malloc` says whether the allocation of the name succeeds, which is not checked. -/
def commitRequest (id : UInt16) (malloc : Bool) (domain : List UInt8) :
    Except Fault (ℕ × List (Option UInt8)) := do
  let header := dnsCreateHeader id
  let (_, question) ← dnsCreateQuestion malloc domain
  dnsBuildRequest header question (List.replicate 1024 (some 0))

/-- The zeroed buffer after `recvfrom`, which may have failed. -/
def receiveBuffer (data : Option (List UInt8)) : List UInt8 :=
  match data with
  | some bytes => bytes ++ List.replicate (1024 - bytes.length) 0
  | none => List.replicate 1024 0

/-- `dns_parse_response` returns this for what was received. -/
def Parses (data : Option (List UInt8)) (count : ℤ) (domains : Option (List DnsItem)) : Prop :=
  ∃ fuel calloc, dnsParseResponse fuel calloc (receiveBuffer data) = .ok (count, domains)

/-- `dns_async_client_free_domains`: the pointers that are freed in front of the list itself. -/
def dnsAsyncClientFreeDomains (list : Option (List DnsItem)) (count : ℤ) :
    Except Fault (List (Option (List UInt8))) := do
  let items ← match list with
    | some items => slice items 0 count.toNat
    | none => if 0 < count then throw .pointer else pure []
  return items.flatMap fun item => [item.domain, item.ip]

/-- The epoll set after `EPOLL_CTL_DEL` of a descriptor that is the socket's. -/
def epollCtlDel (interest : List Registration) (fd : ℕ) (socket : Option ℕ) : List Registration :=
  interest.filter fun reg => ¬ (reg.fd = fd ∧ socket = some reg.query)

/-- The epoll set after the only descriptor of the socket was closed. -/
def dropClosed (interest : List Registration) (socket : Option ℕ) : List Registration :=
  interest.filter fun reg => socket ≠ some reg.query

/-! ## The steps of the threads -/

variable {Cb : Type}

/-- A step of one of the threads. -/
inductive Step : State Cb → State Cb → Prop
  -- `dns_async_client_commit`
  | socket {s : State Cb} (fd : ℕ) (domain : List UInt8) (cb : Cb) (h : s.main = .idle)
      (hfd : s.fds fd = none) :
      Step s { s with
        fds := Function.update s.fds fd (some s.queries)
        queries := s.queries + 1
        main := .send s.queries fd domain cb
        log := s.log ++ [.committed s.queries cb] }
  | socketFail {s : State Cb} (h : s.main = .idle) : Step s { s with main := .exited }
  | sendto {s : State Cb} {query fd : ℕ} {domain : List UInt8} {cb : Cb} (id : UInt16)
      (malloc : Bool) {length : ℕ} {request : List (Option UInt8)}
      (h : s.main = .send query fd domain cb)
      (hreq : commitRequest id malloc domain = .ok (length, request)) :
      Step s { s with
        main := .calloc query fd cb
        log := s.log ++ [.sent (s.fds fd) length request] }
  | calloc {s : State Cb} {query fd : ℕ} {cb : Cb} (eparg : ℕ) (h : s.main = .calloc query fd cb)
      (hp : s.heap eparg = none) :
      Step s { s with
        heap := Function.update s.heap eparg (some ⟨query, ⟨0, none⟩⟩)
        main := .fill query fd cb eparg
        log := s.log ++ [.allocated query] }
  | callocFail {s : State Cb} {query fd : ℕ} {cb : Cb} (h : s.main = .calloc query fd cb) :
      Step s { s with main := .idle }
  | fill {s : State Cb} {query fd : ℕ} {cb : Cb} {eparg : ℕ} {b : Block Cb}
      (h : s.main = .fill query fd cb eparg) (hp : s.heap eparg = some b) :
      Step s { s with
        heap := Function.update s.heap eparg (some ⟨b.query, ⟨fd, some cb⟩⟩)
        main := .add query fd eparg
        log := s.log ++ [.accessed b.query] }
  | fillFault {s : State Cb} {query fd : ℕ} {cb : Cb} {eparg : ℕ}
      (h : s.main = .fill query fd cb eparg) (hp : s.heap eparg = none) :
      Step s { s with main := .fault }
  | add {s : State Cb} {query fd eparg q : ℕ} (h : s.main = .add query fd eparg)
      (hfd : s.fds fd = some q) (hnew : ∀ reg ∈ s.interest, ¬ (reg.fd = fd ∧ reg.query = q)) :
      Step s { s with
        interest := s.interest ++ [⟨fd, q, eparg⟩]
        main := .idle
        log := s.log ++ [.registered q] }
  | addFail {s : State Cb} {query fd eparg : ℕ} (h : s.main = .add query fd eparg) :
      Step s { s with main := .idle }
  -- `dns_async_client_proc`
  /-- `EINTR`, `EAGAIN`, or no event. -/
  | waitAgain {s : State Cb} (h : s.worker = .wait) : Step s s
  | waitFail {s : State Cb} (h : s.worker = .wait) : Step s { s with worker := .stopped }
  | epollWait {s : State Cb} (regs : List Registration) (h : s.worker = .wait) (hne : regs ≠ [])
      (hlen : regs.length ≤ asyncClientNum) (hnodup : regs.Nodup)
      (hsub : ∀ reg ∈ regs, reg ∈ s.interest) :
      Step s { s with worker := .next (regs.map Registration.data) }
  | batchDone {s : State Cb} (h : s.worker = .next []) : Step s { s with worker := .wait }
  | load {s : State Cb} {data : ℕ} {todo : List ℕ} {b : Block Cb}
      (h : s.worker = .next (data :: todo)) (hp : s.heap data = some b) :
      Step s { s with
        worker := .recv data b.arg.sockfd todo
        log := s.log ++ [.accessed b.query] }
  | loadFault {s : State Cb} {data : ℕ} {todo : List ℕ} (h : s.worker = .next (data :: todo))
      (hp : s.heap data = none) : Step s { s with worker := .fault }
  | recvfrom {s : State Cb} {data fd : ℕ} {todo : List ℕ} (bytes : Option (List UInt8)) {count : ℤ}
      {domains : Option (List DnsItem)} (h : s.worker = .recv data fd todo)
      (hbytes : ∀ x, bytes = some x → x.length ≤ 1024 ∧ s.fds fd ≠ none)
      (hparse : Parses bytes count domains) :
      Step s { s with
        worker := .callback data fd todo count domains
        log := s.log ++ [.received (s.fds fd) bytes] }
  | callback {s : State Cb} {data fd : ℕ} {todo : List ℕ} {count : ℤ}
      {domains : Option (List DnsItem)} {b : Block Cb} {cb : Cb}
      (h : s.worker = .callback data fd todo count domains) (hp : s.heap data = some b)
      (hcb : b.arg.cb = some cb) :
      Step s { s with
        worker := .del data fd todo count domains
        log := s.log ++ [.accessed b.query] ++ [.called b.query cb count domains] }
  | callbackFault {s : State Cb} {data fd : ℕ} {todo : List ℕ} {count : ℤ}
      {domains : Option (List DnsItem)} (h : s.worker = .callback data fd todo count domains)
      (hp : ∀ b, s.heap data = some b → b.arg.cb = none) : Step s { s with worker := .fault }
  | epollCtlDel {s : State Cb} {data fd : ℕ} {todo : List ℕ} {count : ℤ}
      {domains : Option (List DnsItem)} (h : s.worker = .del data fd todo count domains) :
      Step s { s with
        interest := epollCtlDel s.interest fd (s.fds fd)
        worker := .close data fd todo count domains
        log := s.log ++ [.deregistered fd (s.fds fd)] }
  | close {s : State Cb} {data fd : ℕ} {todo : List ℕ} {count : ℤ}
      {domains : Option (List DnsItem)} (h : s.worker = .close data fd todo count domains) :
      Step s { s with
        fds := Function.update s.fds fd none
        interest := dropClosed s.interest (s.fds fd)
        worker := .free data fd todo count domains
        log := s.log ++ [.closed fd (s.fds fd)] }
  | free {s : State Cb} {data fd : ℕ} {todo : List ℕ} {count : ℤ}
      {domains : Option (List DnsItem)} {freed : List (Option (List UInt8))} {b : Block Cb}
      (h : s.worker = .free data fd todo count domains)
      (hdomains : dnsAsyncClientFreeDomains domains count = .ok freed)
      (hp : s.heap data = some b) :
      Step s { s with
        heap := Function.update s.heap data none
        worker := .next todo
        log := s.log ++ [.freed b.query] }
  | freeFault {s : State Cb} {data fd : ℕ} {todo : List ℕ} {count : ℤ}
      {domains : Option (List DnsItem)} (h : s.worker = .free data fd todo count domains)
      (hbad : (∃ e, dnsAsyncClientFreeDomains domains count = .error e) ∨ s.heap data = none) :
      Step s { s with worker := .fault }

/-- The states of the process. -/
def Reaches (s : State Cb) : Prop := Reachable (· = start Cb) Step s

/-! ## The list is freed as it was made -/

/-- The entries that were counted are in the list. -/
lemma Parses.freeDomains {data : Option (List UInt8)} {count : ℤ}
    {domains : Option (List DnsItem)} (h : Parses data count domains) :
    ∃ freed, dnsAsyncClientFreeDomains domains count = .ok freed := by
  obtain ⟨fuel, calloc, hparse⟩ := h
  rcases dnsParseResponse_count hparse with ⟨n, list, rfl, rfl, hle⟩ | ⟨rfl, rfl⟩
  · have hslice : slice list 0 (n : ℤ).toNat = .ok ((list.drop 0).take n) := by
      rw [slice, Int.toNat_natCast, if_pos (by omega)]
    exact ⟨_, by rw [dnsAsyncClientFreeDomains]; simp only [hslice]; rfl⟩
  · exact ⟨[], rfl⟩

end CppExample.Dns.Async
