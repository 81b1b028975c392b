/-
# A lookup

`dns_client_commit` of `network/dns/sync_dns_client.cpp`: the request for a host name is sent to the
name server, and the datagram that comes back is parsed.  The name server is a parameter.

A name server that answers the question with addresses of the host makes the client report just
these, in their order; whatever the id and the flags of its answer are, since the client looks at
neither: `lookup_addresses`.
-/
import CppExample.Dns.Query
import CppExample.Dns.CutResponse

namespace CppExample.Dns
open Lib

/-- `dns_client_commit`, with what `dns_parse_response` returns and what it leaves in `domains`.
`id` is what `random` returned.  `server` gives the datagram for the bytes of a request, and `none`
if `recvfrom` fails. -/
def dnsClientCommit (fuel : ℕ) (id : UInt16) (server : List (Option UInt8) → Option (List UInt8))
    (domain : List UInt8) : Except Fault (ℤ × Option (List DnsItem)) := do
  let header := dnsCreateHeader id
  let (_, question) ← dnsCreateQuestion true domain
  let (reqLen, request) ← dnsBuildRequest header question (List.replicate 1024 (some 0))
  let sent ← slice request 0 reqLen
  -- `recvfrom` cuts a datagram off at the size of the buffer
  let buffer ← store (List.replicate 1024 0) 0 (((server sent).getD []).take 1024)
  dnsParseResponse fuel true buffer

/-- An answer of a name server: an address of the host that the question is about. -/
structure IsAddress (r : Record) : Prop where
  owner : r.ownerField = [0xC0, 0x0C]
  type : r.type = dnsHost
  length : r.rdata.length = 4

/-- A message that answers the question about a host with its addresses.  The id, the flags and the
other counts are open. -/
structure Answers (labels : List (List UInt8)) (m : Message) : Prop where
  question : m.questions = [askedQuestion labels]
  addresses : ∀ r ∈ m.answers, IsAddress r
  size : m.wire.length ≤ 1024

variable {labels : List (List UInt8)} {m : Message}

/-- What the client sends, and what it parses. -/
lemma dnsClientCommit_eq (hne : labels ≠ []) (h : ∀ l ∈ labels, HostLabel l)
    (hlen : (dotted labels).length ≤ 253) (fuel : ℕ) (id : UInt16)
    {server : List (Option UInt8) → Option (List UInt8)} {reply : Option (List UInt8)}
    (hserver : server ((query (htons id) 0 labels).wire.map some) = reply) :
    dnsClientCommit fuel id server (dotted labels)
      = dnsParseResponse fuel true
          ((reply.getD []).take 1024 ++ List.replicate (1024 - (reply.getD []).length) 0) := by
  obtain ⟨question, len, request, hquestion, hbuild, hlength, hslice⟩ := sends_zero hne h hlen id
  subst hserver
  have hstore := @store_append_replicate _ [] ((server ((query (htons id) 0 labels).wire.map
    some)).getD [] |>.take 1024) 0 1024 0 rfl (List.length_take_le _ _)
  rw [List.nil_append, List.nil_append, List.length_take] at hstore
  have hpad : 1024 - min 1024 ((server ((query (htons id) 0 labels).wire.map some)).getD []).length
      = 1024 - ((server ((query (htons id) 0 labels).wire.map some)).getD []).length := by omega
  rw [hpad] at hstore
  rw [dnsClientCommit, hquestion]
  simp only [ok_bind, hbuild, hslice, hstore]

/-- The entries of addresses that all belong to one name. -/
lemma entries_of_addresses {rs : List Record} (h : ∀ r ∈ rs, IsAddress r) (text : List UInt8)
    (off : ℕ) : (placedFrom off rs).filterMap (entryOf fun _ => text)
      = rs.map fun r => ⟨some text, some (dottedQuad r.rdata)⟩ := by
  induction rs generalizing off with
  | nil => rfl
  | cons r rs ih =>
    have haddr := h r (by simp)
    rw [placedFrom, List.filterMap_cons, entryOf_of_host haddr.type haddr.length, List.map_cons,
      ih fun r' hr' => h r' (by simp [hr'])]

/-- The name behind the pointer of every answer is the host. -/
lemma Answers.wellFormed (hm : Answers labels m) (h : ∀ l ∈ labels, HostLabel l)
    (hne : labels ≠ []) (hlen : (dotted labels).length ≤ 127) :
    WellFormed m fun _ => labels := by
  have hok : ∀ l ∈ labels, LabelOk l := fun l hl => (h l hl).ok
  obtain ⟨-, hquest, hrecs⟩ := m.hasAt_wire []
  rw [List.append_nil] at hquest hrecs
  have hname : HasAt m.wire 12 (encodeName labels) := by
    rw [Message.questionSection, hm.question] at hquest
    simp only [List.flatMap_cons, List.flatMap_nil, List.append_nil, Question.wire] at hquest
    exact (hasAt_append_iff.1 hquest).1
  have hplaced : ∀ p ∈ m.placed, IsAddress p.2 ∧ HasAt m.wire p.1 [0xC0, 0x0C] ∧ 12 < p.1 := by
    intro p hp
    obtain ⟨hmem, hat⟩ := hasAt_ownerField hrecs p hp
    have haddr := hm.addresses p.2 hmem
    have hle := le_of_mem_placedFrom hp
    have hquestion := length_wire_askedQuestion hne
    rw [Message.questionSection, hm.question] at hle
    simp only [List.flatMap_cons, List.flatMap_nil, List.append_nil, hquestion] at hle
    exact ⟨haddr, haddr.owner ▸ hat, by omega⟩
  have hzero : m.wire[12]? ≠ some 0 := by
    obtain ⟨l, ls, rfl⟩ := List.exists_cons_of_ne_nil hne
    have hfirst : m.wire[12]? = some (UInt8.ofNat l.length) := by
      have henc : encodeName (l :: ls) = UInt8.ofNat l.length :: (l ++ encodeName ls) := by
        simp [encodeName, encodeLabel]
      rw [henc] at hname
      exact hname.getElem?
    rw [hfirst]
    simpa using (hok l (by simp)).ofNat_ne_zero
  refine ⟨hm.size, ?_, fun p hp => ⟨0x0C, (hplaced p hp).1.owner⟩,
    fun p hp => .inl (hplaced p hp).1.type, fun p hp => ?_, fun p hp ht => ?_⟩
  · rw [hm.question]
    simpa [askedQuestion] using hok
  · obtain ⟨-, hat, hlt⟩ := hplaced p hp
    exact ⟨.plain 0x0C hat hlt hzero (nameAt_of_encodeName hok hname), hlen,
      fun l hl => (h l hl).no_nul⟩
  · rw [(hplaced p hp).1.type] at ht
    exact absurd ht (by decide)

/-- What is found for a host in an answer of the name server, or without one. -/
def foundIn (labels : List (List UInt8)) (reply : Option Message) : List DnsItem :=
  (reply.elim [] Message.answers).map fun r => ⟨some (dotted labels), some (dottedQuad r.rdata)⟩

/-- An answer of the name server leads to its addresses. -/
lemma Answers.rounds (hm : Answers labels m) (hne : labels ≠ []) (h : ∀ l ∈ labels, HostLabel l)
    (hlen : (dotted labels).length ≤ 127) (pad : List UInt8) :
    Starts (m.wire ++ pad) m.questions.length m.answers.length (12 + m.questionSection.length) ∧
      ∃ e, Rounds (m.wire ++ pad) m.answers.length (12 + m.questionSection.length)
        (foundIn labels (some m)) e := by
  have hwell := hm.wellFormed h hne hlen
  have hrounds := rounds_of_recordReads (hwell.reads pad) (m.hasAt_wire pad).2.2
  rw [entries_of_addresses hm.addresses] at hrounds
  exact ⟨Message.starts hwell.size hwell.labels pad, _, hrounds⟩

/-- In the zeroed buffer there is a message without questions and answers. -/
lemma starts_zero : Starts (List.replicate 1024 0) 0 0 12 := by
  have hzero : HasAt (List.replicate 1024 (0 : UInt8)) 4 (be16 0) ∧
      HasAt (List.replicate 1024 (0 : UInt8)) 6 (be16 0) := by
    unfold HasAt
    decide
  exact ⟨⟨0, hzero.1, rfl⟩, ⟨0, hzero.2, rfl⟩, .zero 12⟩

/-- If the name server answers the question with addresses of the host, then the client finds
these, in their order.  Without a datagram it finds nothing. -/
theorem lookup_addresses (hne : labels ≠ []) (h : ∀ l ∈ labels, HostLabel l)
    (hlen : (dotted labels).length ≤ 127) (id : UInt16)
    {server : List (Option UInt8) → Option (List UInt8)} {reply : Option Message}
    (hserver : server ((query (htons id) 0 labels).wire.map some) = reply.map Message.wire)
    (hreply : ∀ m ∈ reply, Answers labels m) :
    ∃ n, ∀ fuel, n ≤ fuel →
      let found := (reply.elim [] Message.answers).map fun r =>
        (⟨some (dotted labels), some (dottedQuad r.rdata)⟩ : DnsItem)
      dnsClientCommit fuel id server (dotted labels) = .ok ((found.length : ℤ), some found) := by
  cases reply with
  | none =>
    obtain ⟨n, hn⟩ := (Rounds.zero 12).dnsParseResponse_eq starts_zero
    refine ⟨n, fun fuel hfuel => ?_⟩
    rw [dnsClientCommit_eq hne h (by omega) fuel id hserver]
    exact hn fuel hfuel
  | some m =>
    have hm := hreply m rfl
    set pad := List.replicate (1024 - m.wire.length) (0 : UInt8) with hpad
    obtain ⟨hstarts, e, hrounds⟩ := hm.rounds hne h hlen pad
    obtain ⟨n, hn⟩ := hrounds.dnsParseResponse_eq hstarts
    refine ⟨n, fun fuel hfuel => ?_⟩
    rw [dnsClientCommit_eq hne h (by omega) fuel id hserver]
    have hrun := hn fuel hfuel
    have hlength : (foundIn labels (some m)).length = m.answers.length := List.length_map _
    rw [hlength, Nat.sub_self, List.replicate_zero, List.append_nil] at hrun
    simpa [List.take_of_length_le hm.size, hpad, foundIn] using hrun

/-- The name server has two addresses for the host `a`. -/
def sampleReply : Message where
  id := 9
  flags := 0x8180
  nscount := 0
  arcount := 0
  questions := [askedQuestion [[97]]]
  answers := [⟨[0xC0, 0x0C], dnsHost, 1, 0, 60, [192, 168, 0, 7], by decide⟩,
    ⟨[0xC0, 0x0C], dnsHost, 1, 0, 60, [192, 168, 0, 8], by decide⟩]

lemma sampleReply_answers : Answers [[97]] sampleReply := by
  refine ⟨rfl, fun r hr => ?_, by decide⟩
  rcases List.mem_pair.1 hr with rfl | rfl
  · exact ⟨rfl, rfl, rfl⟩
  · exact ⟨rfl, rfl, rfl⟩

theorem lookup_addresses_sample : ∃ n, ∀ fuel, n ≤ fuel →
    dnsClientCommit fuel 7 (fun _ => some sampleReply.wire) [97]
      = .ok (2, some [⟨some [97], some (dottedQuad [192, 168, 0, 7])⟩,
          ⟨some [97], some (dottedQuad [192, 168, 0, 8])⟩]) := by
  obtain ⟨n, hn⟩ := @lookup_addresses [[97]] (by decide) (by simpa using hostLabel_a) (by decide) 7
    (fun _ => some sampleReply.wire) (some sampleReply) rfl (by simpa using sampleReply_answers)
  exact ⟨n, fun fuel hfuel => hn fuel hfuel⟩

end CppExample.Dns
