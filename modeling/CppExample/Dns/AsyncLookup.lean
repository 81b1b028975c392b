/-
# Many lookups at once

The asynchronous client with a name server and the network between them.  The client asks for one
host after the other and does not wait for the answers, while descriptors and addresses are reused.
What comes to a socket was sent for a request from this socket; it may be lost, come twice and come
at any time.  The name server answers only queries, and those for a host with addresses of the host.

Whatever the two threads do in between, a callback runs once, and gets the addresses in an answer to
the query for the host of its own call: `addresses_delivered`.
-/
import CppExample.Dns.Delivery
import CppExample.Dns.Lookup

namespace CppExample.Dns.Async
open Lib

variable {Cb : Type}

/-- A name server, with the datagram it sends for the bytes of a request. -/
structure NameServer (server : List (Option UInt8) → Option (List UInt8)) : Prop where
  queries : ∀ bytes reply, server bytes = some reply →
    ∃ labels id, bytes = (query id 0 labels).wire.map some
  answers : ∀ labels id reply, labels ≠ [] → (∀ l ∈ labels, HostLabel l) →
    server ((query id 0 labels).wire.map some) = some reply →
      ∃ m : Message, reply = m.wire ∧ Answers labels m

/-- The process, and the labels of the hosts that were asked for, by the numbers of the queries. -/
structure Client (Cb : Type) where
  process : State Cb
  hosts : List (List (List UInt8))

namespace Client

def start (Cb : Type) : Client Cb := ⟨Async.start Cb, []⟩

/-- What arrives at a socket is the beginning of an answer to a request that was sent from it. -/
def Arrives (server : List (Option UInt8) → Option (List UInt8)) (s t : State Cb) : Prop :=
  ∀ q bytes, t.log = s.log ++ [.received (some q) (some bytes)] → ∃ length request reply,
    .sent (some q) length request ∈ s.log ∧ server (request.take length) = some reply ∧
      bytes = reply.take 1024

/-- The steps of the two threads. -/
inductive Step (server : List (Option UInt8) → Option (List UInt8)) (x : Client Cb) :
    Client Cb → Prop
  /-- `dns_async_client_commit` is called. -/
  | commit {t : State Cb} {labels : List (List UInt8)} {fd : ℕ} {cb : Cb} (hne : labels ≠ [])
      (hlabels : ∀ l ∈ labels, HostLabel l) (hlen : (dotted labels).length ≤ 127)
      (hst : Async.Step x.process t) (hqueries : t.queries = x.process.queries + 1)
      (hmain : t.main = .send x.process.queries fd (dotted labels) cb) :
      Step server x ⟨t, x.hosts ++ [labels]⟩
  | other {t : State Cb} (hst : Async.Step x.process t) (hqueries : t.queries = x.process.queries)
      (hnet : Arrives server x.process t) : Step server x { x with process := t }

end Client

/-! ## What one step does -/

section Step

variable {s t : State Cb}

/-- The new entries of the log. -/
structure Logs (s t : State Cb) (new : List (Event Cb)) : Prop where
  log : t.log = s.log ++ new
  sent : ∀ q length request, .sent (some q) length request ∈ new → ∃ query fd domain cb id malloc,
    s.main = .send query fd domain cb ∧ s.fds fd = some q ∧
      commitRequest id malloc domain = .ok (length, request)
  received : ∀ q bytes, .received (some q) (some bytes) ∈ new →
    new = [.received (some q) (some bytes)]

lemma Logs.single {e : Event Cb} (hlog : t.log = s.log ++ [e])
    (he : ∀ q length request, e ≠ .sent (some q) length request) : Logs s t [e] := by
  refine ⟨hlog, fun q length request h => ?_, fun q bytes h => ?_⟩
  · exact absurd (List.mem_singleton.1 h).symm (he q length request)
  · rw [List.mem_singleton.1 h]

lemma Logs.nothing (hlog : t.log = s.log) : Logs s t [] :=
  ⟨by rw [hlog, List.append_nil], fun _ _ _ h => absurd h List.not_mem_nil,
    fun _ _ h => absurd h List.not_mem_nil⟩

lemma Step.logs (h : Step s t) : ∃ new, Logs s t new := by
  cases h with
  | @sendto query fd domain cb id malloc length request h hreq =>
    refine ⟨_, rfl, fun q length' request' hmem => ?_, fun q bytes hmem => ?_⟩
    · have heq := List.mem_singleton.1 hmem
      injection heq with hq hlength hrequest
      subst hlength hrequest
      exact ⟨query, fd, domain, cb, id, malloc, h, hq.symm, hreq⟩
    · cases List.mem_singleton.1 hmem
  | callback h hp hcb =>
    refine ⟨_, List.append_assoc _ _ _, fun q length request hmem => ?_, fun q bytes hmem => ?_⟩
    · rcases List.mem_pair.1 hmem with heq | heq <;> cases heq
    · rcases List.mem_pair.1 hmem with heq | heq <;> cases heq
  | socket | calloc | fill | add | load | recvfrom | epollCtlDel | close | free =>
    exact ⟨_, .single rfl nofun⟩
  | socketFail | callocFail | fillFault | addFail | waitAgain | waitFail | epollWait | batchDone
  | loadFault | callbackFault | freeFault => exact ⟨_, .nothing rfl⟩

/-- Only a new call brings the main thread in front of `sendto`. -/
lemma Step.main_send (h : Step s t) (hqueries : t.queries = s.queries) {q fd : ℕ}
    {domain : List UInt8} {cb : Cb} (hmain : t.main = .send q fd domain cb) :
    s.main = .send q fd domain cb := by
  cases h with
  | socket => exact absurd hqueries (Nat.succ_ne_self _)
  | waitAgain => exact hmain
  | socketFail | sendto | calloc | callocFail | fill | fillFault | add | addFail => cases hmain
  | waitFail | epollWait | batchDone | load | loadFault | recvfrom | callback | callbackFault
  | epollCtlDel | close | free | freeFault => exact hmain

end Step

namespace Client

variable {server : List (Option UInt8) → Option (List UInt8)} {x y : Client Cb}

/-! ## The hosts of the queries -/

/-- What was sent from a socket is the request for the host of its query, and what was received an
answer to it. -/
structure Inv (server : List (Option UInt8) → Option (List UInt8)) (x : Client Cb) : Prop where
  reaches : Reaches x.process
  length : x.hosts.length = x.process.queries
  hosts : ∀ labels ∈ x.hosts,
    labels ≠ [] ∧ (∀ l ∈ labels, HostLabel l) ∧ (dotted labels).length ≤ 127
  main : ∀ q fd domain cb, x.process.main = .send q fd domain cb →
    ∃ labels, x.hosts[q]? = some labels ∧ domain = dotted labels
  sent : ∀ q length request, .sent (some q) length request ∈ x.process.log →
    ∃ labels id malloc, x.hosts[q]? = some labels ∧
      commitRequest id malloc (dotted labels) = .ok (length, request)
  received : ∀ q bytes, .received (some q) (some bytes) ∈ x.process.log →
    ∃ length request reply, .sent (some q) length request ∈ x.process.log ∧
      server (request.take length) = some reply ∧ bytes = reply.take 1024

lemma inv_start : Inv server (start Cb) :=
  ⟨.of_init rfl, rfl, nofun, nofun, nofun, nofun⟩

lemma getElem?_hosts_append {labels labels' : List (List UInt8)} {q : ℕ}
    (h : x.hosts[q]? = some labels') : (x.hosts ++ [labels])[q]? = some labels' :=
  (List.getElem?_append_left (List.getElem?_eq_some_iff.1 h).1).trans h

lemma Inv.commit (hx : Inv server x) {t : State Cb} {labels : List (List UInt8)} {fd : ℕ} {cb : Cb}
    (hne : labels ≠ []) (hlabels : ∀ l ∈ labels, HostLabel l)
    (hlen : (dotted labels).length ≤ 127) (hst : Async.Step x.process t)
    (hqueries : t.queries = x.process.queries + 1)
    (hmain : t.main = .send x.process.queries fd (dotted labels) cb) :
    Inv server ⟨t, x.hosts ++ [labels]⟩ := by
  have hlog : ∃ e, t.log = x.process.log ++ [e] ∧
      (∀ q length request, e ≠ .sent (some q) length request) ∧
      ∀ q bytes, e ≠ .received (some q) (some bytes) := by
    cases hst with
    | socket => exact ⟨_, rfl, nofun, nofun⟩
    | _ => exact absurd hqueries (Nat.succ_ne_self _).symm
  obtain ⟨e, hlog, hsent, hreceived⟩ := hlog
  have hold : ∀ f, f ∈ t.log → f ∈ x.process.log ∨ f = e := by
    intro f hf
    rw [hlog] at hf
    exact (List.mem_append.1 hf).imp_right List.mem_singleton.1
  refine ⟨hx.reaches.tail hst, ?_, fun l hl => ?_, fun q fd' domain cb' h => ?_,
    fun q length request h => ?_, fun q bytes h => ?_⟩
  · rw [List.length_append, hx.length, hqueries]
    rfl
  · rcases List.mem_append.1 hl with hl | hl
    · exact hx.hosts l hl
    · rw [List.mem_singleton.1 hl]
      exact ⟨hne, hlabels, hlen⟩
  · obtain ⟨rfl, rfl, rfl, rfl⟩ := Main.send.inj (hmain.symm.trans h)
    refine ⟨labels, ?_, rfl⟩
    rw [← hx.length]
    exact List.getElem?_concat_length
  · rcases hold _ h with h | h
    · obtain ⟨labels', id, malloc, hq, hreq⟩ := hx.sent q length request h
      exact ⟨labels', id, malloc, getElem?_hosts_append hq, hreq⟩
    · exact absurd h.symm (hsent q length request)
  · rcases hold _ h with h | h
    · obtain ⟨length, request, reply, hs, hreply, hbytes⟩ := hx.received q bytes h
      refine ⟨length, request, reply, ?_, hreply, hbytes⟩
      show _ ∈ t.log
      rw [hlog]
      exact List.mem_append_left _ hs
    · exact absurd h.symm (hreceived q bytes)

lemma Inv.other (hx : Inv server x) {t : State Cb} (hst : Async.Step x.process t)
    (hqueries : t.queries = x.process.queries) (hnet : Arrives server x.process t) :
    Inv server { x with process := t } := by
  obtain ⟨new, hlogs⟩ := hst.logs
  refine ⟨hx.reaches.tail hst, hx.length.trans hqueries.symm, hx.hosts,
    fun q fd domain cb h => hx.main q fd domain cb (hst.main_send hqueries h),
    fun q length request h => ?_, fun q bytes h => ?_⟩
  · dsimp only at h
    rw [hlogs.log] at h
    rcases List.mem_append.1 h with h | h
    · exact hx.sent q length request h
    · -- the socket is that of the query
      obtain ⟨q', fd, domain, cb, id, malloc, hmain, hfd, hreq⟩ := hlogs.sent q length request h
      have hown := hx.reaches.inv.main
      rw [hmain] at hown
      obtain rfl : q' = q := Option.some.inj (hown.1.symm.trans hfd)
      obtain ⟨labels, hq, rfl⟩ := hx.main q' fd domain cb hmain
      exact ⟨labels, id, malloc, hq, hreq⟩
  · dsimp only at h ⊢
    rw [hlogs.log] at h ⊢
    rcases List.mem_append.1 h with h | h
    · obtain ⟨length, request, reply, hs, hreply, hbytes⟩ := hx.received q bytes h
      exact ⟨length, request, reply, List.mem_append_left _ hs, hreply, hbytes⟩
    · have hlog := hlogs.log
      rw [hlogs.received q bytes h] at hlog
      obtain ⟨length, request, reply, hs, hreply, hbytes⟩ := hnet q bytes hlog
      exact ⟨length, request, reply, List.mem_append_left _ hs, hreply, hbytes⟩

lemma inv_of_reachable (h : Reachable (· = start Cb) (Step server) x) : Inv server x := by
  refine h.invariant (I := Inv server) ?_ fun _ _ _ hx hst => ?_
  · rintro x rfl
    exact inv_start
  · cases hst with
    | commit hne hlabels hlen hst hqueries hmain =>
      exact hx.commit hne hlabels hlen hst hqueries hmain
    | other hst hqueries hnet => exact hx.other hst hqueries hnet

end Client

/-! ## What the name server gets -/

variable {labels : List (List UInt8)} {id : UInt16} {malloc : Bool} {length : ℕ}
  {request : List (Option UInt8)}

/-- The datagram is the query for the host; or the name could not be allocated, and it is too short
for a query. -/
lemma take_request (hne : labels ≠ []) (hlabels : ∀ l ∈ labels, HostLabel l)
    (hlen : (dotted labels).length ≤ 253)
    (h : commitRequest id malloc (dotted labels) = .ok (length, request)) :
    request.take length = (query (htons id) 0 labels).wire.map some ∨ length = 16 := by
  cases malloc with
  | true =>
    left
    obtain ⟨question, len, request', hquestion, hbuild, -, hslice⟩ :=
      sends_zero hne hlabels hlen id
    simp only [commitRequest, hquestion, ok_bind, hbuild] at h
    obtain ⟨rfl, rfl⟩ := Prod.mk.inj (Except.ok.inj h)
    rw [slice] at hslice
    split at hslice
    · simpa using hslice
    · cases hslice
  | false =>
    right
    rw [commitRequest, dnsCreateQuestion] at h
    obtain ⟨_, hquestion, h⟩ := bind_eq_ok.1 h
    cases hquestion
    simp only [dnsBuildRequest] at h
    obtain ⟨_, -, h⟩ := bind_eq_ok.1 h
    obtain ⟨_, -, h⟩ := bind_eq_ok.1 h
    obtain ⟨_, -, h⟩ := bind_eq_ok.1 h
    obtain ⟨_, -, h⟩ := bind_eq_ok.1 h
    obtain ⟨_, -, h⟩ := bind_eq_ok.1 h
    cases h
    rfl

lemma length_wire_query (id : UInt16) (labels : List (List UInt8)) :
    17 ≤ (query id 0 labels).wire.length := by
  have hname := List.length_pos_iff.2 (encodeName_ne_nil labels)
  rw [wire_query, List.length_append, length_header, askedQuestion, Question.wire,
    List.length_append]
  simp only [be16, List.length_append, List.length_cons, List.length_nil]
  omega

/-- A reply to what was sent answers the query for the host. -/
lemma NameServer.reply {server : List (Option UInt8) → Option (List UInt8)}
    (hserver : NameServer server) (hne : labels ≠ []) (hlabels : ∀ l ∈ labels, HostLabel l)
    (hlen : (dotted labels).length ≤ 253)
    (h : commitRequest id malloc (dotted labels) = .ok (length, request)) {reply : List UInt8}
    (hreply : server (request.take length) = some reply) :
    ∃ m : Message, reply = m.wire ∧ Answers labels m ∧
      ∃ id, server ((query id 0 labels).wire.map some) = some m.wire := by
  rcases take_request hne hlabels hlen h with hquery | hshort
  · rw [hquery] at hreply
    obtain ⟨m, rfl, hm⟩ := hserver.answers labels _ reply hne hlabels hreply
    exact ⟨m, rfl, hm, _, hreply⟩
  · obtain ⟨labels', id', hquery⟩ := hserver.queries _ reply hreply
    have hle := length_wire_query id' labels'
    have hlength := congrArg List.length hquery
    rw [List.length_take, List.length_map] at hlength
    omega

/-- What the callback gets, when there is one result for the data. -/
lemma Parses.found {data : Option (List UInt8)} {count : ℤ} {domains : Option (List DnsItem)}
    {found : List DnsItem} (h : Parses data count domains)
    (hreturns : Returns (receiveBuffer data) found) :
    count = -1 ∧ domains = none ∨
      count = found.length ∧ ∃ rest, domains = some (found ++ rest) := by
  obtain ⟨fuel, calloc, hparse⟩ := h
  rcases dnsParseResponse_count hparse with ⟨n, list, rfl, rfl, hle⟩ | hnone
  · right
    cases calloc with
    | false =>
      rw [dnsParseResponse] at hparse
      obtain ⟨_, -, hparse⟩ := bind_eq_ok.1 hparse
      cases hparse
    | true =>
      have hlength : (list.take n).length = n := List.length_take_of_le hle
      have hparse' : dnsParseResponse fuel true (receiveBuffer data)
          = .ok (((list.take n).length : ℤ), some (list.take n ++ list.drop n)) := by
        rw [hparse, hlength, List.take_append_drop]
      obtain rfl := hreturns.unique (returns_of_dnsParseResponse hparse')
      exact ⟨by rw [hlength], list.drop n, by rw [List.take_append_drop]⟩
  · exact .inl hnone

namespace Client

variable {server : List (Option UInt8) → Option (List UInt8)} {x : Client Cb}

/-- **Every callback gets the addresses of its own host.**  It runs once, and its query was made
with it.  What it gets are the addresses in an answer of the name server to a query for the host of
this call, in their order; or nothing, if nothing was received or there was no memory for the list.
-/
theorem addresses_delivered (hserver : NameServer server)
    (h : Reachable (· = start Cb) (Step server) x) {l l' : List (Event Cb)} {q : ℕ} {cb : Cb}
    {count : ℤ} {domains : Option (List DnsItem)}
    (hlog : x.process.log = l ++ .called q cb count domains :: l') :
    ¬ Called q l ∧ .committed q cb ∈ l ∧ ∃ labels, x.hosts[q]? = some labels ∧
      (count = -1 ∧ domains = none ∨ ∃ (reply : Option Message) (rest : List DnsItem),
        (∀ m ∈ reply, Answers labels m ∧
          ∃ id, server ((query id 0 labels).wire.map some) = some m.wire) ∧
        count = (foundIn labels reply).length ∧ domains = some (foundIn labels reply ++ rest)) := by
  have hx := inv_of_reachable h
  obtain ⟨hcommitted, hnot, bytes, hreceived, hparse⟩ := hx.reaches.inv.own.lawful l _ l' hlog
  refine ⟨hnot, hcommitted, ?_⟩
  have hreceived' : .received (some q) bytes ∈ x.process.log := by
    rw [hlog]
    exact List.mem_append_left _ hreceived
  cases bytes with
  | none =>
    have hregistered := hx.reaches.inv.epoll.registered q
      ⟨cb, count, domains, by rw [hlog]; simp⟩
    have hlt : q < x.hosts.length := by
      rw [hx.length]
      exact hx.reaches.inv.own.registered_lt q hregistered
    refine ⟨x.hosts[q], List.getElem?_eq_getElem hlt, ?_⟩
    refine (hparse.found ((Rounds.zero 12).returns starts_zero)).imp_right
      fun ⟨hcount, rest, hdomains⟩ => ⟨none, rest, nofun, hcount, hdomains⟩
  | some bytes =>
    obtain ⟨length, request, reply, hsent, hreply, rfl⟩ := hx.received q bytes hreceived'
    obtain ⟨labels, id, malloc, hq, hreq⟩ := hx.sent q length request hsent
    obtain ⟨hne, hlabels, hlen⟩ := hx.hosts labels (List.mem_of_getElem? hq)
    obtain ⟨m, rfl, hm, hanswer⟩ := hserver.reply hne hlabels (by omega) hreq hreply
    refine ⟨labels, hq, ?_⟩
    rw [List.take_of_length_le hm.size] at hparse
    obtain ⟨hstarts, e, hrounds⟩ := hm.rounds hne hlabels hlen _
    refine (hparse.found (hrounds.returns hstarts)).imp_right fun ⟨hcount, rest, hdomains⟩ => ?_
    refine ⟨some m, rest, fun m' hm' => ?_, hcount, hdomains⟩
    obtain rfl := Option.some.inj hm'
    exact ⟨hm, hanswer⟩

/-! ## A name server for one host -/

/-- The bytes of a name tell its labels. -/
lemma eq_of_encodeName_eq {ls ls' : List (List UInt8)} (h : ∀ l ∈ ls, LabelOk l)
    (h' : ∀ l ∈ ls', LabelOk l) (heq : encodeName ls = encodeName ls') : ls = ls' := by
  have hcons : ∀ (l : List UInt8) (ls : List (List UInt8)),
      encodeName (l :: ls) = UInt8.ofNat l.length :: (l ++ encodeName ls) := by
    intro l ls
    simp [encodeName, encodeLabel]
  induction ls generalizing ls' with
  | nil =>
    cases ls' with
    | nil => rfl
    | cons l' ls' =>
      rw [hcons] at heq
      exact absurd (List.cons.inj heq).1.symm (h' l' List.mem_cons_self).ofNat_ne_zero
  | cons l ls ih =>
    cases ls' with
    | nil =>
      rw [hcons] at heq
      exact absurd (List.cons.inj heq).1 (h l List.mem_cons_self).ofNat_ne_zero
    | cons l' ls' =>
      rw [hcons, hcons] at heq
      obtain ⟨hlength, hrest⟩ := List.cons.inj heq
      have hlen : l.length = l'.length := by
        have := congrArg UInt8.toNat hlength
        rwa [(h l List.mem_cons_self).toNat, (h' l' List.mem_cons_self).toNat] at this
      obtain ⟨rfl, htail⟩ := List.append_inj hrest hlen
      rw [ih (fun l hl => h l (List.mem_cons_of_mem _ hl))
        (fun l hl => h' l (List.mem_cons_of_mem _ hl)) htail]

/-- A name server that answers one query, which asks for the host `a`. -/
def sampleServer (bytes : List (Option UInt8)) : Option (List UInt8) :=
  if bytes = (query (htons 7) 0 [[97]]).wire.map some then some sampleReply.wire else none

lemma sampleServer_ok : NameServer sampleServer := by
  refine ⟨fun bytes reply h => ?_, fun labels id reply hne hlabels h => ?_⟩
  · rw [sampleServer] at h
    split at h
    · next heq => exact ⟨_, _, heq⟩
    · cases h
  · rw [sampleServer] at h
    split at h
    · next heq =>
      have hwire := List.map_injective_iff.2 (Option.some_injective _) heq
      rw [wire_query, wire_query] at hwire
      have hquestion := (List.append_inj hwire (by rw [length_header, length_header])).2
      have hname : encodeName labels = encodeName [[97]] := by
        rw [askedQuestion, askedQuestion, Question.wire, Question.wire] at hquestion
        exact List.append_cancel_right hquestion
      obtain rfl := eq_of_encodeName_eq (fun l hl => (hlabels l hl).ok)
        (by simpa using hostLabel_a.ok) hname
      exact ⟨sampleReply, (Option.some.inj h).symm, sampleReply_answers⟩
    · cases h

/-- A step that receives nothing. -/
lemma arrives_of_log {s t : State Cb} {new : List (Event Cb)} (hlog : t.log = s.log ++ new)
    (hnew : ∀ q bytes, new ≠ [.received (some q) (some bytes)]) : Arrives server s t := by
  intro q bytes h
  rw [hlog] at h
  exact absurd (List.append_cancel_left h) (hnew q bytes)

/-- The host `a` is looked up, and the callback gets its two addresses. -/
lemma sample_run : ∃ (x : Client ℕ) (l : List (Event ℕ)) (domains : Option (List DnsItem)),
    Reachable (· = start ℕ) (Step sampleServer) x ∧
    x.process.log = l ++ [.called 0 5 2 domains] ∧ x.hosts = [[[97]]] := by
  obtain ⟨question, len, request, hquestion, hbuild, -, hslice⟩ :=
    @sends_zero [[97]] (by decide) (by simpa using hostLabel_a) (by decide) 7
  have hreq : commitRequest 7 true (dotted [[97]]) = .ok (len, request) := by
    simp only [commitRequest, hquestion, ok_bind, hbuild]
  have htake : request.take len = (query (htons 7) 0 [[97]]).wire.map some := by
    rw [slice] at hslice
    split at hslice
    · simpa using hslice
    · cases hslice
  obtain ⟨hstarts, e, hrounds⟩ := sampleReply_answers.rounds (by decide)
    (by simpa using hostLabel_a) (by decide)
    (List.replicate (1024 - sampleReply.wire.length) 0)
  obtain ⟨n, hn⟩ := hrounds.returns hstarts
  obtain ⟨rest, hparse⟩ := hn n le_rfl
  have hbytes : ∀ x, some sampleReply.wire = some x → x.length ≤ 1024 ∧ some 0 ≠ none := by
    intro x hx
    rw [← Option.some.inj hx]
    exact ⟨sampleReply_answers.size, Option.some_ne_none 0⟩
  let fds : ℕ → Option ℕ := Function.update (fun _ => none) 3 (some 0)
  let heap : ℕ → Option (Block ℕ) := Function.update (fun _ => none) 0 (some ⟨0, ⟨0, none⟩⟩)
  let heap' : ℕ → Option (Block ℕ) := Function.update heap 0 (some ⟨0, ⟨3, some 5⟩⟩)
  let log : List (Event ℕ) :=
    [.committed 0 5, .sent (some 0) len request, .allocated 0, .accessed 0, .registered 0]
  -- the main thread
  have h : Reachable (· = start ℕ) (Step sampleServer) (start ℕ) := .of_init rfl
  have h : Reachable (· = start ℕ) (Step sampleServer) ⟨⟨fds, [], fun _ => none, 1,
      .send 0 3 (dotted [[97]]) 5, .wait, log.take 1⟩, [[[97]]]⟩ :=
    h.tail (Step.commit (by decide) (by simpa using hostLabel_a) (by decide)
      (.socket 3 (dotted [[97]]) 5 rfl rfl) rfl rfl)
  have h : Reachable (· = start ℕ) (Step sampleServer) ⟨⟨fds, [], fun _ => none, 1,
      .calloc 0 3 5, .wait, log.take 2⟩, [[[97]]]⟩ :=
    h.tail (.other (.sendto 7 true rfl hreq) rfl (arrives_of_log rfl (by simp)))
  have h : Reachable (· = start ℕ) (Step sampleServer) ⟨⟨fds, [], heap, 1, .fill 0 3 5 0, .wait,
      log.take 3⟩, [[[97]]]⟩ :=
    h.tail (.other (.calloc 0 rfl rfl) rfl (arrives_of_log rfl (by simp)))
  have h : Reachable (· = start ℕ) (Step sampleServer) ⟨⟨fds, [], heap', 1, .add 0 3 0, .wait,
      log.take 4⟩, [[[97]]]⟩ :=
    h.tail (.other (.fill (b := ⟨0, ⟨0, none⟩⟩) rfl rfl) rfl (arrives_of_log rfl (by simp)))
  have h : Reachable (· = start ℕ) (Step sampleServer) ⟨⟨fds, [⟨3, 0, 0⟩], heap', 1, .idle, .wait,
      log⟩, [[[97]]]⟩ :=
    h.tail (.other (.add (q := 0) rfl rfl (by simp)) rfl (arrives_of_log rfl (by simp)))
  -- the worker
  have h : Reachable (· = start ℕ) (Step sampleServer) ⟨⟨fds, [⟨3, 0, 0⟩], heap', 1, .idle,
      .next [0], log⟩, [[[97]]]⟩ :=
    h.tail (.other (.epollWait [⟨3, 0, 0⟩] rfl (by decide) (by decide) (by decide)
      fun reg hreg => hreg) rfl (arrives_of_log (List.append_nil _).symm (by simp)))
  have h : Reachable (· = start ℕ) (Step sampleServer) ⟨⟨fds, [⟨3, 0, 0⟩], heap', 1, .idle,
      .recv 0 3 [], log ++ [.accessed 0]⟩, [[[97]]]⟩ :=
    h.tail (.other (.load (b := ⟨0, ⟨3, some 5⟩⟩) rfl rfl) rfl (arrives_of_log rfl (by simp)))
  have h : Reachable (· = start ℕ) (Step sampleServer) ⟨⟨fds, [⟨3, 0, 0⟩], heap', 1, .idle,
      .callback 0 3 [] 2 (some (foundIn [[97]] (some sampleReply) ++ rest)),
      log ++ [.accessed 0] ++ [.received (some 0) (some sampleReply.wire)]⟩, [[[97]]]⟩ := by
    refine h.tail (.other (.recvfrom (some sampleReply.wire) rfl hbytes ⟨n, true, hparse⟩) rfl ?_)
    intro q bytes heq
    -- the answer is for the query that was sent from the socket
    have hlast := List.append_cancel_left heq
    injection hlast with hlast
    injection hlast with hq hb
    obtain rfl := Option.some.inj hq
    obtain rfl := Option.some.inj hb
    refine ⟨len, request, sampleReply.wire, ?_, ?_, ?_⟩
    · exact List.mem_append_left _ (List.mem_cons_of_mem _ List.mem_cons_self)
    · rw [htake, sampleServer, if_pos rfl]
    · exact (List.take_of_length_le sampleReply_answers.size).symm
  have h := h.tail (.other (.callback (b := ⟨0, ⟨3, some 5⟩⟩) rfl rfl rfl) rfl
    (arrives_of_log (List.append_assoc _ _ _) (by simp)))
  exact ⟨_, _, _, h, rfl, rfl⟩

theorem addresses_delivered_sample : ∃ (x : Client ℕ) (l : List (Event ℕ))
    (domains : Option (List DnsItem)),
    Reachable (· = start ℕ) (Step sampleServer) x ∧
    x.process.log = l ++ [.called 0 5 2 domains] ∧ ¬ Called 0 l ∧
    x.hosts[0]? = some [[97]] := by
  obtain ⟨x, l, domains, h, hlog, hhosts⟩ := sample_run
  obtain ⟨hnot, -, -⟩ := addresses_delivered sampleServer_ok h hlog
  exact ⟨x, l, domains, h, hlog, hnot, by rw [hhosts]; rfl⟩

end Client

end CppExample.Dns.Async
