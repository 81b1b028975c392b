/-
# The query on the wire

What `dns_create_header`, `dns_create_question` and `dns_build_request` produce together,
for every host name.

* The statement on `flags` in `dns_create_header` compares and does not assign.  The client
  therefore never asks for recursion; apart from that bit its messages are standard queries.
* `dns_create_question` declares the length `strlen (hostname) + 2`.  This is the length of
  the encoding when every piece of the host name between two dots is a label.  Each empty
  piece leaves one byte of `qname` unwritten, and without any label nothing is written.
-/
import CppExample.Dns.Question

namespace CppExample.Dns
open Lib

/-! ## The flags of the header -/

/-- A standard query for the address of a host, with these flags. -/
def query (id flags : UInt16) (labels : List (List UInt8)) : Message where
  id := id
  flags := flags
  nscount := 0
  arcount := 0
  questions := [askedQuestion labels]
  answers := []

/-- With `id` from `random`, the client builds this standard query about a host name. -/
def Sends (id : UInt16) (labels : List (List UInt8)) (wireId flags : UInt16) : Prop :=
  ∃ question len request,
    dnsCreateQuestion true (dotted labels) = .ok (0, question) ∧
    dnsBuildRequest (dnsCreateHeader id) question (List.replicate 1024 (some 0))
      = .ok (len, request) ∧
    len = (query wireId flags labels).wire.length ∧
    slice request 0 len = .ok ((query wireId flags labels).wire.map some)

lemma shortBytes_eq_be16 (x : UInt16) : shortBytes x = be16 (htons x) := by
  have hx := x.toNat_lt
  have hswap : (htons x).toNat = x.toNat % 256 * 256 + x.toNat / 256 := by
    rw [htons, UInt16.toNat_ofNat', Nat.mod_eq_of_lt (by omega)]
  have hhigh : (x.toNat % 256 * 256 + x.toNat / 256) / 256 = x.toNat % 256 := by omega
  have hlow : (x.toNat % 256 * 256 + x.toNat / 256) % 256 = x.toNat / 256 := by omega
  rw [shortBytes, be16, hswap, hhigh, hlow]

lemma bytes_dnsCreateHeader (id : UInt16) (labels : List (List UInt8)) :
    (dnsCreateHeader id).bytes = (query (htons id) 0 labels).header := by
  have hzero : htons 0 = 0 := by decide
  have hone : htons (htons 1) = 1 := by decide
  simp only [DnsHeader.bytes, shortBytes_eq_be16, dnsCreateHeader, Message.header, query, hzero,
    hone, List.append_assoc]
  rfl

lemma wire_query (id flags : UInt16) (labels : List (List UInt8)) :
    (query id flags labels).wire
      = (query id flags labels).header ++ (askedQuestion labels).wire := by
  simp [Message.wire, Message.questionSection, query]

/-- The header is found at the start of whatever `dns_build_request` returns. -/
lemma hasAt_header_of_build {header : DnsHeader} {question : DnsQuestion}
    {request request' : List (Option UInt8)} {len : ℕ}
    (h : dnsBuildRequest header question request = .ok (len, request')) :
    HasAt request' 0 (header.bytes.map some) := by
  rw [dnsBuildRequest] at h
  obtain ⟨r₁, h₁, h⟩ := bind_eq_ok.1 h
  obtain ⟨qname, -, h⟩ := bind_eq_ok.1 h
  obtain ⟨r₂, h₂, h⟩ := bind_eq_ok.1 h
  obtain ⟨r₃, h₃, h⟩ := bind_eq_ok.1 h
  obtain ⟨r₄, h₄, h⟩ := bind_eq_ok.1 h
  obtain rfl := (Prod.mk.inj (Except.ok.inj h)).2
  rw [length_header_bytes] at h₂ h₃ h₄
  have hlen : 0 + (header.bytes.map some).length = 12 := by
    rw [List.length_map, length_header_bytes]
  -- the later writes are behind the header
  have hat₁ := hasAt_of_store h₁
  have hat₂ := hat₁.of_store h₂ (by omega)
  have hat₃ := hat₂.of_store h₃ (by omega)
  exact hat₃.of_store h₄ (by omega)

lemma be16_injective : Function.Injective be16 := by
  intro x y h
  have hx := x.toNat_lt
  have hy := y.toNat_lt
  simp only [be16, List.cons.injEq, and_true] at h
  have hhigh := congrArg UInt8.toNat h.1
  have hlow := congrArg UInt8.toNat h.2
  rw [UInt8.toNat_ofNat', UInt8.toNat_ofNat'] at hhigh hlow
  apply UInt16.toNat_inj.1
  omega

/-- The flags of a query are zero, as `memset` leaves them in the header. -/
lemma flags_of_sends {id wireId flags : UInt16} {labels : List (List UInt8)}
    (h : Sends id labels wireId flags) : flags = 0 := by
  obtain ⟨question, len, request, -, hbuild, -, hslice⟩ := h
  have hheader := hasAt_header_of_build hbuild
  have hwire := hasAt_of_slice hslice
  rw [wire_query, List.map_append, hasAt_append_iff] at hwire
  have hsame : (dnsCreateHeader id).bytes.map some
      = (query wireId flags labels).header.map some := by
    refine (List.prefix_of_prefix_length_le hheader hwire.1 ?_).eq_of_length ?_
    · simp [length_header_bytes, length_header]
    · simp [length_header_bytes, length_header]
  have hbytes := (List.map_injective_iff.2 (Option.some_injective _)) hsame
  rw [bytes_dnsCreateHeader id labels, Message.header, Message.header] at hbytes
  have hflags := (List.append_inj (List.append_inj hbytes (by simp)).2 (by simp)).1
  exact (be16_injective hflags).symm

/-- A host name with labels is asked for in a standard query that is right but for its
flags. -/
lemma sends_zero {labels : List (List UInt8)} (hne : labels ≠ [])
    (h : ∀ l ∈ labels, HostLabel l) (hlen : (dotted labels).length ≤ 253) (id : UInt16) :
    Sends id labels (htons id) 0 := by
  have henc := length_encodeName hne
  have hbuild := @dnsBuildRequest_eq (dnsCreateHeader id)
    ⟨(dotted labels).length + 2, htons 1, htons 1, (encodeName labels).map some⟩
    (encodeName labels) rfl henc.symm (by simp [encodeName]) 1024 (by omega)
  rw [← wire_askedQuestion, bytes_dnsCreateHeader id labels, ← wire_query] at hbuild
  have hcount : 12 + ((dotted labels).length + 2) + 4
      = (query (htons id) 0 labels).wire.length := by
    rw [wire_query, List.length_append, length_header, length_wire_askedQuestion hne]
    omega
  refine ⟨_, _, _, dnsCreateQuestion_dotted hne h, hbuild, hcount, ?_⟩
  have hne' : (query (htons id) 0 labels).wire.map some ≠ [] := by
    simp [wire_query, Message.header, be16]
  have hslice := @slice_of_append _ []
    _ (List.replicate (1024 - 12 - (encodeName labels).length - 2 - 2) (some 0)) hne'
  rw [List.length_map, ← hcount] at hslice
  exact hslice

/-- **The client never asks for recursion.**  For every host name and every value of
`random`, what the three functions produce is not a query with the flags `0x0100`, whatever
id one takes it to carry.  When the name has a label it is, byte for byte and in its
length, the standard query with all flags clear. -/
theorem query_not_recursive {labels : List (List UInt8)} (h : ∀ l ∈ labels, HostLabel l)
    (hlen : (dotted labels).length ≤ 253) (id : UInt16) :
    (∀ wireId, ¬ Sends id labels wireId 0x0100) ∧
      (labels ≠ [] → Sends id labels (htons id) 0) := by
  constructor
  · intro wireId hsends
    exact absurd (flags_of_sends hsends) (by decide)
  · intro hne
    exact sends_zero hne h hlen id

lemma hostLabel_a : HostLabel [97] := ⟨by unfold LabelOk; decide, by decide, by decide⟩

/-- The query for `a` with the id 7. -/
theorem query_not_recursive_a :
    (∀ wireId, ¬ Sends 7 [[97]] wireId 0x0100) ∧ Sends 7 [[97]] (htons 7) 0 := by
  have h := @query_not_recursive [[97]] (by simpa using hostLabel_a) (by decide) 7
  exact ⟨h.1, h.2 (by decide)⟩

/-- The host name `a` is not asked for with recursion desired. -/
theorem recursionLost : ¬ ∃ wireId, Sends 7 [[97]] wireId 0x0100 := by
  rintro ⟨wireId, hsends⟩
  exact absurd (flags_of_sends hsends) (by decide)

/-! ## The declared length -/

/-- After `dns_create_question` the declared bytes are all written and are the encoding of
the labels, and `dns_build_request` puts just these in front of the type. -/
def DeclaresExactly (hostname : List UInt8) : Prop :=
  ∃ question, dnsCreateQuestion true hostname = .ok (0, question) ∧
    slice question.qname 0 question.length = .ok ((encodeName (tokens hostname)).map some) ∧
    ∀ header n, 12 + question.length + 4 ≤ n → ∃ len request,
      dnsBuildRequest header question (List.replicate n (some 0)) = .ok (len, request) ∧
      slice request 12 (len - 12 - 4) = .ok ((encodeName (tokens hostname)).map some)

/-- The host name has no leading, trailing or repeated dot, and is not empty. -/
def SingleDots (hostname : List UInt8) : Prop := ∀ piece ∈ hostname.splitOn dot, piece ≠ []

lemma singleDots_iff (hostname : List UInt8) :
    SingleDots hostname ↔ (hostname.splitOn dot).count [] = 0 := by
  rw [List.count_eq_zero]
  constructor
  · exact fun h hmem => h [] hmem rfl
  · rintro h piece hmem rfl
    exact h hmem

lemma encodeName_ne_nil (labels : List (List UInt8)) : encodeName labels ≠ [] := by
  simp [encodeName]

/-- The declared length exceeds that of the encoding by one for each empty piece. -/
lemma length_encodeName_tokens (hostname : List UInt8) :
    (encodeName (tokens hostname)).length + (hostname.splitOn dot).count []
      = hostname.length + 2 := by
  have h := length_flatMap_tokens hostname
  rw [encodeName, List.length_append, List.length_singleton]
  omega

/-- Reading the declared number of bytes yields as many bytes as the encoding has, and so no
piece is empty. -/
lemma DeclaresExactly.singleDots {hostname : List UInt8} (h : DeclaresExactly hostname) :
    SingleDots hostname := by
  obtain ⟨question, hquestion, hslice, -⟩ := h
  have hlen := length_encodeName_tokens hostname
  rw [dnsCreateQuestion_eq] at hquestion
  obtain rfl := (Prod.mk.inj (Except.ok.inj hquestion)).2
  have hcount := (of_slice hslice).1
  rw [List.length_map] at hcount
  simp only at hcount
  rw [singleDots_iff]
  omega

/-- Without empty pieces the encoding fills the allocation, and is copied as it is. -/
lemma SingleDots.declaresExactly {hostname : List UInt8} (h : SingleDots hostname) :
    DeclaresExactly hostname := by
  have hlen := length_encodeName_tokens hostname
  have hcreate := dnsCreateQuestion_eq hostname
  have hcount := (singleDots_iff hostname).1 h
  have hne : tokens hostname ≠ [] := by
    intro hnil
    rw [hnil, hcount] at hlen
    simp [encodeName] at hlen
  rw [if_neg hne, hcount, List.replicate_zero, List.append_nil] at hcreate
  rw [hcount, Nat.add_zero] at hlen
  have hsome : (encodeName (tokens hostname)).map some ≠ [] := by
    simpa using encodeName_ne_nil (tokens hostname)
  have hslice := @slice_of_append _ [] _ [] hsome
  rw [List.nil_append, List.append_nil, List.length_map, hlen] at hslice
  refine ⟨_, hcreate, hslice, fun header n hn => ?_⟩
  simp only at hn
  have hbuild := @dnsBuildRequest_eq header
    ⟨hostname.length + 2, htons 1, htons 1, (encodeName (tokens hostname)).map some⟩
    (encodeName (tokens hostname)) rfl hlen.symm (encodeName_ne_nil _) n (by omega)
  refine ⟨_, _, hbuild, ?_⟩
  have hsub : 12 + (hostname.length + 2) + 4 - 12 - 4 = hostname.length + 2 := by omega
  have hmiddle := @slice_of_append _ (header.bytes.map some) _
    ((shortBytes (htons 1) ++ shortBytes (htons 1)).map some
      ++ List.replicate (n - 12 - (encodeName (tokens hostname)).length - 2 - 2) (some 0)) hsome
  rw [List.length_map, List.length_map, length_header_bytes, hlen] at hmiddle
  simp only [hsub]
  rw [← hmiddle]
  simp only [hlen, List.map_append, List.append_assoc]

/-- **The declared length.**  `dns_create_question` writes all the bytes that it declares,
and they are the encoding of the labels, exactly for the host names without an empty piece:
those that are not empty and have no leading, trailing or repeated dot. -/
theorem declaresExactly_iff (hostname : List UInt8) :
    DeclaresExactly hostname ↔ SingleDots hostname := by
  constructor
  · exact DeclaresExactly.singleDots
  · exact SingleDots.declaresExactly

/-- For the host name `a.` four bytes are declared and three are written. -/
theorem unwrittenByte :
    dnsCreateQuestion true [97, dot]
        = .ok (0, ⟨4, htons 1, htons 1, [some 1, some 97, some 0, none]⟩) ∧
      ¬ DeclaresExactly [97, dot] := by
  have hpieces : [97, dot].splitOn dot = [[97], []] := by
    simp [List.splitOn_cons_eq_if_modifyHead, dot]
  constructor
  · rw [dnsCreateQuestion_eq, tokens, hpieces]
    rfl
  · intro h
    exact h.singleDots [] (by rw [hpieces]; simp) rfl

end CppExample.Dns
