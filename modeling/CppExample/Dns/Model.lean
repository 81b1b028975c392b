/-
# The DNS client: building a query and parsing a response

The functions of `network/dns/async_dns_client.cpp` that work on bytes.  The same
functions, word for word, are in `network/dns/sync_dns_client.cpp`.

Conventions of the embedding.

* A C string is the list of its bytes without the terminating NUL.
* A pointer into an object is an offset, the object itself a list of cells, and every
  access goes through the checked `load`, `slice` and `store`.
* Memory that comes from `malloc` holds `none` until it is written.
* `unsigned short` lies in memory with its low byte first, as on the hosts the program is
  built for; `htons` and `ntohs` swap the two bytes.
* The two loops that follow the contents of the packet take a budget of iterations.
-/
import CppExample.Lib.Buffer

namespace CppExample.Dns
open Lib

/-! ## Library functions -/

/-- The character `'.'`. -/
def dot : UInt8 := 46

/-- `htons`, which is also `ntohs`. -/
def htons (x : UInt16) : UInt16 := UInt16.ofNat (x.toNat % 256 * 256 + x.toNat / 256)

/-- The bytes of an `unsigned short` in memory. -/
def shortBytes (x : UInt16) : List UInt8 :=
  [UInt8.ofNat (x.toNat % 256), UInt8.ofNat (x.toNat / 256)]

/-- `*(unsigned short *) ptr`. -/
def loadShort (buf : List UInt8) (ptr : ℕ) : Except Fault UInt16 := do
  let lo ← load buf ptr
  let hi ← load buf (ptr + 1)
  return UInt16.ofNat (lo.toNat + 256 * hi.toNat)

/-- One call of `strtok`: the next token of the rest of the string and what is left behind
the delimiter that ended it, or `none` when only delimiters are left. -/
def strtok (rest : List UInt8) (delimiter : UInt8) : Option (List UInt8 × List UInt8) :=
  match rest.dropWhile (· == delimiter) with
  | [] => none
  | s => some (s.takeWhile (· != delimiter), (s.dropWhile (· != delimiter)).drop 1)

/-- The C string that starts at the beginning of an object; reading it leaves the object
when there is no NUL in it. -/
def cstr (buf : List UInt8) : Except Fault (List UInt8) :=
  if 0 ∈ buf then .ok (buf.takeWhile (· != 0)) else .error (.read buf.length)

/-- The decimal digits of a byte. -/
def decimal (b : UInt8) : List UInt8 :=
  if b < 10 then [48 + b]
  else if b < 100 then [48 + b / 10, 48 + b % 10]
  else [48 + b / 100, 48 + b / 10 % 10, 48 + b % 10]

/-- The dotted-quad text of an address. -/
def dottedQuad (netip : List UInt8) : List UInt8 := [dot].intercalate (netip.map decimal)

/-- `inet_ntop (AF_INET, netip, dst, size)`: the text with its NUL, when `size` has room
for it. -/
def inetNtop (netip dst : List UInt8) (size : ℕ) : Except Fault (List UInt8) :=
  if (dottedQuad netip).length + 1 ≤ size then store dst 0 (dottedQuad netip ++ [0])
  else pure dst

/-- What `strtok` consumes: a token that is not empty and, unless nothing is left, the
delimiter behind it. -/
lemma length_of_strtok {rest token rest' : List UInt8} {delimiter : UInt8}
    (h : strtok rest delimiter = some (token, rest')) :
    0 < token.length ∧ token.length ≤ rest.length ∧
      (rest' = [] ∨ token.length + 1 + rest'.length ≤ rest.length) := by
  rw [strtok] at h
  have hdrop := List.IsSuffix.length_le (List.dropWhile_suffix (l := rest) (· == delimiter))
  split at h
  · cases h
  · next s hne =>
    rw [Option.some.injEq, Prod.mk.injEq] at h
    obtain ⟨rfl, rfl⟩ := h
    have hsplit := congrArg List.length (List.takeWhile_append_dropWhile
      (p := (· != delimiter)) (l := rest.dropWhile (· == delimiter)))
    rw [List.length_append] at hsplit
    refine ⟨?_, by omega, ?_⟩
    · cases hs : rest.dropWhile (· == delimiter) with
      | nil => exact absurd hs hne
      | cons b tail =>
        have hb : b ≠ delimiter := by
          have hhead := List.head?_dropWhile_not (· == delimiter) rest
          rw [hs] at hhead
          simpa using hhead
        simp [hb]
    · cases hbehind : (rest.dropWhile (· == delimiter)).dropWhile (· != delimiter) with
      | nil => exact Or.inl rfl
      | cons d tail =>
        rw [hbehind, List.length_cons] at hsplit
        exact Or.inr (by rw [List.drop_one, List.tail_cons]; omega)

lemma strtok_rest_length_lt {rest token rest' : List UInt8} {delimiter : UInt8}
    (h : strtok rest delimiter = some (token, rest')) : rest'.length < rest.length := by
  obtain ⟨hpos, htoken, hrest⟩ := length_of_strtok h
  rcases hrest with rfl | hrest
  · rw [List.length_nil]
    omega
  · omega

/-! ## The query -/

/-- `struct dns_header`. -/
structure DnsHeader where
  id : UInt16
  flags : UInt16
  qdcount : UInt16
  ancount : UInt16
  nscount : UInt16
  arcount : UInt16
deriving DecidableEq, Repr

/-- The bytes of the header in memory. -/
def DnsHeader.bytes (h : DnsHeader) : List UInt8 :=
  shortBytes h.id ++ shortBytes h.flags ++ shortBytes h.qdcount ++ shortBytes h.ancount
    ++ shortBytes h.nscount ++ shortBytes h.arcount

/-- `struct dns_question`, with the cells that `qname` points to. -/
structure DnsQuestion where
  length : ℕ
  qtype : UInt16
  qclass : UInt16
  qname : List (Option UInt8)
deriving DecidableEq, Repr

/-- `dns_create_header`; `id` is what `random` returned.  The statement on `flags` in the
source is a comparison whose value is dropped, so `flags` keeps its zero. -/
def dnsCreateHeader (id : UInt16) : DnsHeader where
  id := id
  flags := 0
  qdcount := htons 1
  ancount := 0
  nscount := 0
  arcount := 0

/-- The token loop of `dns_create_question`, at `qname_p` with `rest` of the duplicated
host name still to be cut into tokens. -/
def questionLoop (qname : List (Option UInt8)) (qnameP : ℕ) (rest : List UInt8) :
    Except Fault (List (Option UInt8)) :=
  match _h : strtok rest dot with
  | none => pure qname
  | some (token, rest') => do
      let len := token.length
      let qname ← store qname qnameP [some (UInt8.ofNat len)]
      let qnameP := qnameP + 1
      -- `strncpy` of `len + 1` characters takes the NUL along
      let qname ← store qname qnameP ((token ++ [0]).map some)
      questionLoop qname (qnameP + len) rest'
termination_by rest.length
decreasing_by exact strtok_rest_length_lt _h

/-- `dns_create_question`; `malloc` says whether the allocation of `qname` succeeds. -/
def dnsCreateQuestion (malloc : Bool) (hostname : List UInt8) :
    Except Fault (ℤ × DnsQuestion) :=
  if malloc then do
    let qname := List.replicate (hostname.length + 2) none
    let qname ← questionLoop qname 0 hostname
    return (0, ⟨hostname.length + 2, htons 1, htons 1, qname⟩)
  else
    return (-2, ⟨0, 0, 0, []⟩)

/-- `dns_build_request`: the length it returns and the cells of `request` afterwards. -/
def dnsBuildRequest (header : DnsHeader) (question : DnsQuestion)
    (request : List (Option UInt8)) : Except Fault (ℕ × List (Option UInt8)) := do
  let headerS := header.bytes.length
  let questionS := question.length + 2 + 2
  let length := questionS + headerS
  let offset := 0
  let request ← store request offset (header.bytes.map some)
  let offset := offset + headerS
  let qname ← slice question.qname 0 question.length
  let request ← store request offset qname
  let offset := offset + question.length
  let request ← store request offset ((shortBytes question.qtype).map some)
  let offset := offset + 2
  let request ← store request offset ((shortBytes question.qclass).map some)
  return (length, request)

/-! ## Names in a response -/

/-- `is_pointer`. -/
def isPointer (flag : UInt8) : Bool := flag &&& 0xC0 == 0xC0

/-- The loop of `dns_parse_name`, at `ptr` in `chunk` and at `pos` in `out`. -/
def parseNameLoop : ℕ → List UInt8 → ℕ → ℕ → List UInt8 → ℕ → Except Fault (List UInt8 × ℕ)
  | 0, _, _, _, _, _ => throw .fuel
  | fuel + 1, chunk, ptr, pos, out, len => do
      let flag ← load chunk ptr
      if flag = 0 then
        return (out, len)
      else if isPointer flag then
        let n ← load chunk (ptr + 1)
        parseNameLoop fuel chunk n.toNat pos out len
      else
        let ptr := ptr + 1
        let label ← slice chunk ptr flag.toNat
        let out ← store out pos label
        let pos := pos + flag.toNat
        let ptr := ptr + flag.toNat
        let len := len + flag.toNat
        let next ← load chunk ptr
        if next ≠ 0 then
          let out ← store out pos [dot]
          parseNameLoop fuel chunk ptr (pos + 1) out (len + 1)
        else
          parseNameLoop fuel chunk ptr pos out len

/-- `dns_parse_name`: the cells of `out` and the value of `*len` afterwards. -/
def dnsParseName (fuel : ℕ) (chunk : List UInt8) (ptr : ℕ) (out : List UInt8) (len : ℕ) :
    Except Fault (List UInt8 × ℕ) :=
  parseNameLoop fuel chunk ptr len out len

/-! ## The response -/

/-- `struct dns_item`; a null pointer is `none`, any other the C string behind it. -/
structure DnsItem where
  domain : Option (List UInt8)
  ip : Option (List UInt8)
deriving DecidableEq, Repr

/-- An entry of `list` as `calloc` leaves it. -/
def DnsItem.null : DnsItem := ⟨none, none⟩

/-- `DNS_HOST`. -/
def dnsHost : UInt16 := 0x01

/-- `DNS_CNAME`. -/
def dnsCname : UInt16 := 0x05

/-- The inner loop that steps over the labels of a question. -/
def skipName : ℕ → List UInt8 → ℕ → Except Fault ℕ
  | 0, _, _ => throw .fuel
  | fuel + 1, buffer, ptr => do
      let flag ← load buffer ptr
      let ptr := ptr + (flag.toNat + 1)
      if flag = 0 then return ptr else skipName fuel buffer ptr

/-- The loop that skips the queries and leaves `ptr` at the answers. -/
def skipQuestions (fuel : ℕ) (buffer : List UInt8) : ℕ → ℕ → Except Fault ℕ
  | 0, ptr => return ptr
  | querys + 1, ptr => do
      let ptr ← skipName fuel buffer ptr
      skipQuestions fuel buffer querys (ptr + 4)

/-- One round of the answer loop: the new values of `ptr`, `cnt` and `list`.  A record
that is neither a host address nor a canonical name leaves `ptr` in front of its data. -/
def parseAnswer (fuel : ℕ) (buffer : List UInt8) (ptr cnt : ℕ) (list : List DnsItem) :
    Except Fault (ℕ × ℕ × List DnsItem) := do
  let (aname, _) ← dnsParseName fuel buffer ptr (List.replicate 128 0) 0
  let ptr := ptr + 2
  let type := htons (← loadShort buffer ptr)
  let ptr := ptr + 2
  let _qclass := htons (← loadShort buffer ptr)
  let ptr := ptr + 2
  let _ttl := htons (← loadShort buffer ptr)
  let ptr := ptr + 4
  let datalen := (htons (← loadShort buffer ptr)).toNat
  let ptr := ptr + 2
  if type = dnsCname then
    let _cname ← dnsParseName fuel buffer ptr (List.replicate 128 0) 0
    return (ptr + datalen, cnt, list)
  else if type = dnsHost then
    if datalen = 4 then
      let netip ← slice buffer ptr datalen
      let ip ← inetNtop netip (List.replicate 20 0) 16
      let domain ← cstr aname
      let ip ← cstr ip
      let list ← store list cnt [⟨some domain, some ip⟩]
      return (ptr + datalen, cnt + 1, list)
    else
      return (ptr + datalen, cnt, list)
  else
    return (ptr, cnt, list)

/-- The answer loop, with `answers` rounds to go. -/
def parseAnswers (fuel : ℕ) (buffer : List UInt8) :
    ℕ → ℕ → ℕ → List DnsItem → Except Fault (ℕ × ℕ × List DnsItem)
  | 0, ptr, cnt, list => return (ptr, cnt, list)
  | answers + 1, ptr, cnt, list => do
      let (ptr, cnt, list) ← parseAnswer fuel buffer ptr cnt list
      parseAnswers fuel buffer answers ptr cnt list

/-- The head of `dns_parse_response`: the two counts, and the value of `ptr` behind the
question-skip loop. -/
def parseHead (fuel : ℕ) (buffer : List UInt8) : Except Fault (ℕ × ℕ × ℕ) := do
  let ptr := 0 + 4
  let querys := (htons (← loadShort buffer ptr)).toNat
  let ptr := ptr + 2
  let answers := (htons (← loadShort buffer ptr)).toNat
  let ptr := ptr + 6
  let ptr ← skipQuestions fuel buffer querys ptr
  return (querys, answers, ptr)

/-- `dns_parse_response`: what it returns and what it leaves in `*domains`.  `calloc` says
whether the allocation of `list` succeeds. -/
def dnsParseResponse (fuel : ℕ) (calloc : Bool) (buffer : List UInt8) :
    Except Fault (ℤ × Option (List DnsItem)) := do
  let (_, answers, ptr) ← parseHead fuel buffer
  if calloc then
    let (_, cnt, list) ← parseAnswers fuel buffer answers ptr 0
      (List.replicate answers DnsItem.null)
    return ((cnt : ℤ), some list)
  else
    return (-1, none)

end CppExample.Dns
