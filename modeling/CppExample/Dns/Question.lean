/-
# The question and its echo

The token loop of `dns_create_question` writes, for a host name of labels joined by single
dots, the uncompressed encoding of these labels: the NUL that `strncpy` takes along after
a label is the cell of the next length byte, and the last one ends the name.
`dns_build_request` copies the encoding behind the header.

A server echoes the question and lets the owner fields of its answers point back at it.
The last section shows that the two readers of `dns_parse_response` agree with the writer
on such a response.
-/
import CppExample.Dns.Response
import Mathlib.Data.List.TakeWhile

namespace CppExample.Dns
open Lib

/-- A label that can stand in a host name: 1 to 63 bytes, no dot and no NUL. -/
structure HostLabel (l : List UInt8) : Prop where
  ok : LabelOk l
  no_dot : dot ∉ l
  no_nul : (0 : UInt8) ∉ l

/-! ## Tokens -/

/-- The non-empty pieces of a host name between its dots. -/
def tokens (hostname : List UInt8) : List (List UInt8) := (hostname.splitOn dot).filter (· ≠ [])

lemma tokens_dot_cons (rest : List UInt8) : tokens (dot :: rest) = tokens rest := by
  simp [tokens, List.splitOn_cons_eq_if_modifyHead]

/-- A piece that runs up to a dot is the first token. -/
lemma tokens_append_dot {token : List UInt8} (hne : token ≠ []) (h : dot ∉ token)
    (rest : List UInt8) : tokens (token ++ dot :: rest) = token :: tokens rest := by
  rw [tokens, List.splitOn_append_cons_self_of_not_mem h, List.filter_cons_of_pos (by simpa)]
  rfl

/-- A piece without dots is the only token. -/
lemma tokens_of_no_dot {token : List UInt8} (hne : token ≠ []) (h : dot ∉ token) :
    tokens token = [token] := by
  rw [tokens, List.splitOn_eq_singleton h, List.filter_cons_of_pos (by simpa), List.filter_nil]

lemma strtok_dot_cons (rest : List UInt8) : strtok (dot :: rest) dot = strtok rest dot := by
  simp [strtok]

/-- `strtok` at a byte that is no dot: the token runs up to the next dot. -/
lemma strtok_cons {b : UInt8} (hb : b ≠ dot) (rest : List UInt8) :
    strtok (b :: rest) dot
      = some ((b :: rest).takeWhile (· != dot), ((b :: rest).dropWhile (· != dot)).drop 1) := by
  have hdrop : (b :: rest).dropWhile (· == dot) = b :: rest := by simp [hb]
  rw [strtok, hdrop]

/-- `strtok` hands out the tokens one by one. -/
lemma tokens_eq (rest : List UInt8) :
    tokens rest = match strtok rest dot with
      | none => []
      | some (token, rest') => token :: tokens rest' := by
  induction rest with
  | nil => simp [tokens, strtok]
  | cons b rest ih =>
    by_cases hb : b = dot
    · subst hb
      rw [tokens_dot_cons, strtok_dot_cons]
      exact ih
    · rw [strtok_cons hb]
      have hne : (b :: rest).takeWhile (· != dot) ≠ [] := by simp [hb]
      have hdot : dot ∉ (b :: rest).takeWhile (· != dot) := by
        intro hmem
        simpa using List.mem_takeWhile_imp hmem
      have hsplit := List.takeWhile_append_dropWhile (p := (· != dot)) (l := b :: rest)
      cases htail : (b :: rest).dropWhile (· != dot) with
      | nil =>
        rw [htail, List.append_nil] at hsplit
        rw [hsplit] at hne hdot ⊢
        rw [tokens_of_no_dot hne hdot]
        simp [tokens]
      | cons d tail =>
        have hd : d = dot := by
          have hhead := List.head?_dropWhile_not (· != dot) (b :: rest)
          rw [htail] at hhead
          simpa using hhead
        rw [htail, hd] at hsplit
        nth_rewrite 1 [← hsplit]
        rw [tokens_append_dot hne hdot]
        rfl

/-- The tokens of labels that are joined by single dots are these labels. -/
lemma tokens_dotted {labels : List (List UInt8)} (h : ∀ l ∈ labels, HostLabel l) :
    tokens (dotted labels) = labels := by
  by_cases hne : labels = []
  · subst hne
    simp [tokens, dotted_nil]
  · rw [tokens, dotted, List.splitOn_intercalate dot (fun l hl => (h l hl).no_dot) hne,
      List.filter_eq_self]
    intro l hl
    simpa using (h l hl).ok.ne_nil

/-! ## The token loop -/

lemma questionLoop_of_none {qname : List (Option UInt8)} {qnameP : ℕ} {rest : List UInt8}
    (h : strtok rest dot = none) : questionLoop qname qnameP rest = .ok qname := by
  rw [questionLoop]
  split
  · rfl
  · next h' => rw [h] at h'; cases h'

lemma questionLoop_of_some {qname : List (Option UInt8)} {qnameP : ℕ}
    {rest token rest' : List UInt8} (h : strtok rest dot = some (token, rest')) :
    questionLoop qname qnameP rest = (do
      let qname ← store qname qnameP [some (UInt8.ofNat token.length)]
      let qname ← store qname (qnameP + 1) ((token ++ [0]).map some)
      questionLoop qname (qnameP + 1 + token.length) rest') := by
  rw [questionLoop]
  split
  · next h' => rw [h] at h'; cases h'
  · next h' =>
    rw [h] at h'
    cases h'
    rfl

/-- The token loop with the cells `pre` already written.  The tail has room for the encoding
of the tokens and the final NUL; what lies behind the NUL is left as it is. -/
lemma questionLoop_tokens {ts : List (List UInt8)} :
    ∀ (rest : List UInt8) (pre tail : List (Option UInt8)), tokens rest = ts →
      (ts.flatMap encodeLabel).length < tail.length →
      questionLoop (pre ++ tail) pre.length rest
        = .ok (pre ++ (ts.flatMap encodeLabel).map some
            ++ if ts = [] then tail
              else some 0 :: tail.drop ((ts.flatMap encodeLabel).length + 1)) := by
  induction ts with
  | nil =>
    intro rest pre tail hts _
    rw [tokens_eq] at hts
    cases hstr : strtok rest dot with
    | none =>
      rw [questionLoop_of_none hstr]
      simp
    | some p => simp [hstr] at hts
  | cons l ls ih =>
    intro rest pre tail hts htail
    rw [tokens_eq] at hts
    cases hstr : strtok rest dot with
    | none => simp [hstr] at hts
    | some p =>
      obtain ⟨token, rest'⟩ := p
      simp only [hstr, List.cons.injEq] at hts
      obtain ⟨rfl, hls⟩ := hts
      rw [List.flatMap_cons, List.length_append, length_encodeLabel] at htail
      -- the length byte
      have hstore₁ : store (pre ++ tail) pre.length [some (UInt8.ofNat token.length)]
          = .ok (pre ++ [some (UInt8.ofNat token.length)] ++ tail.drop 1) :=
        store_append rfl (by rw [List.length_singleton]; omega)
      -- the label and the NUL behind it
      have hstore₂ : store (pre ++ [some (UInt8.ofNat token.length)] ++ tail.drop 1)
          (pre.length + 1) ((token ++ [0]).map some)
          = .ok (pre ++ [some (UInt8.ofNat token.length)] ++ (token ++ [0]).map some
              ++ (tail.drop 1).drop ((token ++ [0]).map some).length) := by
        refine store_append (by simp) ?_
        simp only [List.length_map, List.length_append, List.length_singleton, List.length_drop]
        omega
      -- what the next round finds: the NUL heads the tail
      have hcells : pre ++ [some (UInt8.ofNat token.length)] ++ (token ++ [0]).map some
            ++ (tail.drop 1).drop ((token ++ [0]).map some).length
          = (pre ++ (encodeLabel token).map some)
            ++ (some 0 :: tail.drop (1 + (token.length + 1))) := by
        simp [encodeLabel, Nat.add_comm 1]
      have hpos : pre.length + 1 + token.length
          = (pre ++ (encodeLabel token).map some).length := by
        rw [List.length_append, List.length_map, length_encodeLabel, Nat.add_assoc]
      have hih := ih rest' (pre ++ (encodeLabel token).map some)
        (some 0 :: tail.drop (1 + (token.length + 1))) hls
        (by rw [List.length_cons, List.length_drop]; omega)
      rw [questionLoop_of_some hstr]
      simp only [bind, Except.bind, hstore₁, hstore₂]
      rw [hcells, hpos, hih]
      by_cases hnil : ls = []
      · subst hnil
        simp [length_encodeLabel, Nat.add_comm, Nat.add_left_comm]
      · simp [hnil, length_encodeLabel, Nat.add_comm, Nat.add_left_comm]

/-- The encoding of a host name is two bytes longer than its text. -/
lemma length_encodeName {labels : List (List UInt8)} (h : labels ≠ []) :
    (encodeName labels).length = (dotted labels).length + 2 := by
  induction labels with
  | nil => exact absurd rfl h
  | cons l ls ih =>
    have henc : encodeName (l :: ls) = encodeLabel l ++ encodeName ls := by simp [encodeName]
    rw [henc, List.length_append, length_encodeLabel]
    by_cases hls : ls = []
    · subst hls
      rw [dotted_singleton]
      simp only [encodeName, List.flatMap_nil, List.nil_append, List.length_singleton]
      omega
    · rw [ih hls, dotted_cons_of_ne_nil l hls, List.length_append, List.length_cons]
      omega

/-- Dropping the empty pieces of a name shortens its encoding by one byte for each. -/
lemma length_flatMap_filter_ne_nil (pieces : List (List UInt8)) :
    ((pieces.filter (· ≠ [])).flatMap encodeLabel).length + pieces.count []
      = (pieces.flatMap encodeLabel).length := by
  induction pieces with
  | nil => rfl
  | cons l ls ih =>
    rw [List.flatMap_cons, List.length_append, length_encodeLabel]
    by_cases hl : l = []
    · subst hl
      rw [List.filter_cons_of_neg (by simp), List.count_cons_self, List.length_nil]
      omega
    · rw [List.filter_cons_of_pos (by simpa), List.flatMap_cons, List.length_append,
        length_encodeLabel, List.count_cons_of_ne hl]
      omega

/-- The bytes that the token loop produces fall short of the allocation by one byte for each
empty piece of the host name. -/
lemma length_flatMap_tokens (hostname : List UInt8) :
    ((tokens hostname).flatMap encodeLabel).length + (hostname.splitOn dot).count []
      = hostname.length + 1 := by
  have hall := length_encodeName (List.splitOn_ne_nil dot hostname)
  rw [dotted, List.intercalate_splitOn, encodeName, List.length_append,
    List.length_singleton] at hall
  have hfilter := length_flatMap_filter_ne_nil (hostname.splitOn dot)
  rw [tokens]
  omega

/-- `dns_create_question` on any host name: the tokens are encoded, and the cells that are
left over, one for each empty piece of the host name, stay as `malloc` returned them.  When
there is no token, nothing is written. -/
lemma dnsCreateQuestion_eq (hostname : List UInt8) :
    dnsCreateQuestion true hostname
      = .ok (0, ⟨hostname.length + 2, htons 1, htons 1,
          if tokens hostname = [] then List.replicate (hostname.length + 2) none
          else (encodeName (tokens hostname)).map some
            ++ List.replicate ((hostname.splitOn dot).count []) none⟩) := by
  have hlen := length_flatMap_tokens hostname
  have hloop := questionLoop_tokens hostname [] (List.replicate (hostname.length + 2) none) rfl
    (by rw [List.length_replicate]; omega)
  have hrest : hostname.length + 2 - (((tokens hostname).flatMap encodeLabel).length + 1)
      = (hostname.splitOn dot).count [] := by
    omega
  rw [List.drop_replicate, hrest] at hloop
  simp only [List.nil_append, List.length_nil] at hloop
  rw [dnsCreateQuestion]
  simp only [if_true, bind, Except.bind, hloop]
  by_cases hnil : tokens hostname = []
  · simp [hnil, pure, Except.pure]
  · simp [hnil, pure, Except.pure, encodeName]

/-- `dns_create_question` on labels joined by single dots: the declared length is that of the
encoding, and every cell of `qname` is written with it. -/
lemma dnsCreateQuestion_dotted {labels : List (List UInt8)} (hne : labels ≠ [])
    (h : ∀ l ∈ labels, HostLabel l) :
    dnsCreateQuestion true (dotted labels)
      = .ok (0, ⟨(dotted labels).length + 2, htons 1, htons 1,
          (encodeName labels).map some⟩) := by
  have hcount : ((dotted labels).splitOn dot).count [] = 0 := by
    rw [dotted, List.splitOn_intercalate dot (fun l hl => (h l hl).no_dot) hne, List.count_eq_zero]
    intro hmem
    exact (h [] hmem).ok.ne_nil rfl
  rw [dnsCreateQuestion_eq, tokens_dotted h, if_neg hne, hcount, List.replicate_zero,
    List.append_nil]

/-! ## The request -/

lemma length_header_bytes (h : DnsHeader) : h.bytes.length = 12 := rfl

lemma shortBytes_htons_one : shortBytes (htons 1) = be16 1 := by decide

/-- `dns_build_request` on a question whose encoding is complete: header, encoding, type
and class, and the zero cells of `request` behind them. -/
lemma dnsBuildRequest_eq (header : DnsHeader) {question : DnsQuestion} {enc : List UInt8}
    (hq : question.qname = enc.map some) (hlen : question.length = enc.length)
    (hne : enc ≠ []) {n : ℕ} (hn : 12 + (enc.length + 4) ≤ n) :
    dnsBuildRequest header question (List.replicate n (some 0))
      = .ok (12 + question.length + 4,
          (header.bytes ++ (enc ++ (shortBytes question.qtype ++ shortBytes question.qclass))).map
              some
            ++ List.replicate (n - 12 - enc.length - 2 - 2) (some 0)) := by
  have hslice : slice question.qname 0 enc.length = .ok (enc.map some) := by
    have hat : HasAt question.qname 0 (enc.map some) := ⟨[], by rw [hq]; simp⟩
    rw [← List.length_map (f := some)]
    exact hat.slice (by simpa using hne)
  have htype : ((shortBytes question.qtype).map some).length = 2 := rfl
  have hclass : ((shortBytes question.qclass).map some).length = 2 := rfl
  have hheader : (header.bytes.map some).length = 12 := rfl
  have henc : (enc.map (some : UInt8 → Option UInt8)).length = enc.length := List.length_map ..
  -- the four stores are one
  obtain ⟨b₁, h₁, hl₁⟩ := @exists_store _ (List.replicate n (some (0 : UInt8)))
    (header.bytes.map some) 0 (by rw [hheader, List.length_replicate]; omega)
  rw [List.length_replicate] at hl₁
  obtain ⟨b₂, h₂, hl₂⟩ := @exists_store _ b₁ (enc.map some) 12 (by omega)
  obtain ⟨b₃, h₃, hl₃⟩ := @exists_store _ b₂ ((shortBytes question.qtype).map some)
    (12 + enc.length) (by omega)
  obtain ⟨b₄, h₄, -⟩ := @exists_store _ b₃ ((shortBytes question.qclass).map some)
    (12 + enc.length + 2) (by omega)
  have hone := store_store h₁ (store_store h₂ (henc.symm ▸ store_store h₃ h₄))
  rw [dnsBuildRequest]
  simp only [bind, Except.bind, length_header_bytes, h₁, hslice, Nat.zero_add, h₂, hlen, h₃, h₄,
    pure, Except.pure, Except.ok.injEq, Prod.mk.injEq]
  refine ⟨by omega, ?_⟩
  have hwhole := @store_append_replicate _ [] _ 0 n (some 0) rfl
    (show (header.bytes.map some ++ (enc.map some ++ ((shortBytes question.qtype).map some
      ++ (shortBytes question.qclass).map some))).length ≤ n by
        simp only [List.length_append, hheader, henc, htype, hclass]
        omega)
  obtain rfl := Except.ok.inj (hone.symm.trans hwhole)
  simp only [List.length_append, hheader, henc, htype, hclass, List.map_append, List.nil_append,
    Nat.sub_sub, Nat.add_assoc]

/-! ## The round trip -/

/-- The encoding of a host name, found at an offset, is a name there. -/
lemma nameAt_of_encodeName {msg : List UInt8} {allowed : UInt8 → ℕ → Prop}
    {labels : List (List UInt8)} (hl : ∀ l ∈ labels, LabelOk l) {off : ℕ}
    (h : HasAt msg off (encodeName labels)) : NameAt msg allowed off labels := by
  induction labels generalizing off with
  | nil => exact .root h.getElem?
  | cons l ls ih =>
    have henc : encodeName (l :: ls) = encodeLabel l ++ encodeName ls := by simp [encodeName]
    rw [henc, hasAt_append_iff, length_encodeLabel] at h
    exact .label (hl l (by simp)) h.1 (ih (fun l' hl' => hl l' (by simp [hl'])) h.2)

/-- An owner field of a section is found at the offset of its record. -/
lemma hasAt_ownerField {msg : List UInt8} {records : List Record} {off : ℕ}
    (h : HasAt msg off (records.flatMap Record.wire)) :
    ∀ p ∈ placedFrom off records, p.2 ∈ records ∧ HasAt msg p.1 p.2.ownerField := by
  induction records generalizing off with
  | nil => simp [placedFrom]
  | cons r rs ih =>
    rw [List.flatMap_cons, hasAt_append_iff] at h
    intro p hp
    rcases List.mem_cons.1 hp with rfl | hp
    · exact ⟨by simp, (hasAt_append_iff.1 h.1).1⟩
    · obtain ⟨hmem, hat⟩ := ih h.2 p hp
      exact ⟨by simp [hmem], hat⟩

/-- The pointer `C0 0C` to an echoed question decodes to the host name. -/
lemma dnsParseName_echo {msg : List UInt8} {labels : List (List UInt8)}
    (hl : ∀ l ∈ labels, LabelOk l) (hlen : (dotted labels).length ≤ 127)
    (hecho : HasAt msg 12 (encodeName labels)) :
    ∃ n, ∀ fuel, n ≤ fuel → ∀ off, HasAt msg off [0xC0, 0x0C] →
      dnsParseName fuel msg off (List.replicate 128 0) 0
        = .ok (dotted labels ++ List.replicate (128 - (dotted labels).length) 0,
            (dotted labels).length) := by
  obtain ⟨n, hn⟩ := dnsParseName_spelled (nameAt_of_encodeName hl hecho).spelled
  refine ⟨n + 1, fun fuel hfuel off hoff => ?_⟩
  obtain ⟨fuel, rfl⟩ : ∃ k, fuel = k + 1 := Nat.exists_eq_add_of_le' (by omega)
  rw [dnsParseName, parseNameLoop_pointer hoff (by decide)]
  exact hn fuel (by omega) 128 (by omega)

/-- The question that the client asks about a host name: its address, in class `IN`. -/
def askedQuestion (labels : List (List UInt8)) : Question := ⟨labels, 1, 1⟩

lemma wire_askedQuestion (labels : List (List UInt8)) :
    (askedQuestion labels).wire
      = encodeName labels ++ (shortBytes (htons 1) ++ shortBytes (htons 1)) := by
  rw [shortBytes_htons_one]
  rfl

lemma length_wire_askedQuestion {labels : List (List UInt8)} (hne : labels ≠ []) :
    (askedQuestion labels).wire.length = (dotted labels).length + 2 + 4 := by
  rw [Question.wire, List.length_append]
  exact congrArg (· + 4) (length_encodeName hne)

/-- What follows the header of a request is the question. -/
lemma slice_request {labels : List (List UInt8)} (hne : labels ≠ []) (header : DnsHeader)
    (pad : List (Option UInt8)) :
    slice ((header.bytes ++ (encodeName labels
        ++ (shortBytes (htons 1) ++ shortBytes (htons 1)))).map some ++ pad) 12
        ((dotted labels).length + 2 + 4)
      = .ok ((askedQuestion labels).wire.map some) := by
  have hlen := length_wire_askedQuestion hne
  have hat := hasAt_of_append (header.bytes.map some) ((askedQuestion labels).wire.map some) pad
  have hslice := hat.slice (List.ne_nil_of_length_pos (by rw [List.length_map]; omega))
  rw [List.length_map, List.length_map, hlen, length_header_bytes] at hslice
  rw [← wire_askedQuestion, List.map_append]
  exact hslice

/-- A response that begins with a header for one question, an echo of the question that the
client asked, and records whose owner fields point at the echo. -/
lemma parse_echo {labels : List (List UInt8)} (hne : labels ≠ [])
    (hl : ∀ l ∈ labels, LabelOk l) (hlen : (dotted labels).length ≤ 127)
    {header : List UInt8} (hheader : header.length = 12) (hqdcount : HasAt header 4 (be16 1))
    {records : List Record} (howner : ∀ r ∈ records, r.ownerField = [0xC0, 0x0C])
    (rest : List UInt8) :
    ∃ n, ∀ fuel, n ≤ fuel →
      let response := header ++ ((askedQuestion labels).wire
        ++ (records.flatMap Record.wire ++ rest))
      (∃ answers, parseHead fuel response
        = .ok (1, answers, 12 + ((dotted labels).length + 2) + 4)) ∧
      ∀ p ∈ placedFrom (12 + ((dotted labels).length + 2) + 4) records,
        dnsParseName fuel response p.1 (List.replicate 128 0) 0
          = .ok (dotted labels ++ List.replicate (128 - (dotted labels).length) 0,
              (dotted labels).length) := by
  have hqlen := length_wire_askedQuestion hne
  have hresp : HasAt (header ++ ((askedQuestion labels).wire
      ++ (records.flatMap Record.wire ++ rest))) 0
      (header ++ ((askedQuestion labels).wire ++ (records.flatMap Record.wire ++ rest))) :=
    ⟨[], by simp⟩
  rw [hasAt_append_iff, hasAt_append_iff, hasAt_append_iff, hheader, hqlen] at hresp
  obtain ⟨hhead, hquest, hrecs, -⟩ := hresp
  generalize header ++ ((askedQuestion labels).wire
    ++ (records.flatMap Record.wire ++ rest)) = response at *
  rw [Nat.zero_add] at hquest hrecs
  obtain ⟨n, hn⟩ := dnsParseName_echo hl hlen (hasAt_append_iff.1 hquest).1
  have hqd : HasAt response 4 (be16 1) := by
    have hsub : header.drop 4 <+: response.drop 4 := List.IsPrefix.drop hhead 4
    exact List.IsPrefix.trans hqdcount hsub
  obtain ⟨answers, hanswers⟩ : ∃ x, loadShort response 6 = .ok x := by
    have hle := hhead.length_le (List.ne_nil_of_length_pos (by omega))
    exact loadShort_of_lt (by omega)
  have hstarts := @starts_of_questions _ [askedQuestion labels] _ hqd (by simp)
    (hasAt_of_loadShort hanswers) (by simpa using hquest) (by simpa [askedQuestion] using hl)
  obtain ⟨k, hk⟩ := hstarts.parseHead_eq
  refine ⟨max n k, fun fuel hfuel => ⟨⟨(htons answers).toNat, ?_⟩, fun p hp => ?_⟩⟩
  · have heq := hk fuel (le_of_max_le_right hfuel)
    simp only [List.flatMap_cons, List.flatMap_nil, List.append_nil, hqlen] at heq
    exact heq
  · obtain ⟨hmem, hat⟩ := hasAt_ownerField hrecs p hp
    rw [howner p.2 hmem] at hat
    exact hn fuel (le_of_max_le_left hfuel) p.1 hat

/-- **Encoding and decoding agree.**  For a host name of at most 127 bytes whose labels are
joined by single dots, the question that the client builds is echoed in a response and the
owner fields of its answers point at the echo.  Then the question-skip loop stops at the
length that `dns_build_request` returned, and `dns_parse_name` turns every owner field into
the host name. -/
theorem dnsQuery_roundtrip {labels : List (List UInt8)} (hne : labels ≠ [])
    (h : ∀ l ∈ labels, HostLabel l) (hlen : (dotted labels).length ≤ 127) (id : UInt16)
    {header : List UInt8} (hheader : header.length = 12) (hqdcount : HasAt header 4 (be16 1))
    {records : List Record} (howner : ∀ r ∈ records, r.ownerField = [0xC0, 0x0C])
    (rest : List UInt8) :
    ∃ question len request echo,
      dnsCreateQuestion true (dotted labels) = .ok (0, question) ∧
      dnsBuildRequest (dnsCreateHeader id) question (List.replicate 1024 (some 0))
        = .ok (len, request) ∧
      slice request 12 (len - 12) = .ok (echo.map some) ∧
      len = 12 + question.length + 4 ∧
      ∃ n, ∀ fuel, n ≤ fuel →
        let response := header ++ (echo ++ (records.flatMap Record.wire ++ rest))
        (∃ answers, parseHead fuel response = .ok (1, answers, 12 + question.length + 4)) ∧
        ∀ p ∈ placedFrom (12 + question.length + 4) records,
          dnsParseName fuel response p.1 (List.replicate 128 0) 0
            = .ok (dotted labels ++ List.replicate (128 - (dotted labels).length) 0,
                (dotted labels).length) := by
  have henc := length_encodeName hne
  have hbuild := @dnsBuildRequest_eq (dnsCreateHeader id)
    ⟨(dotted labels).length + 2, htons 1, htons 1, (encodeName labels).map some⟩
    (encodeName labels) rfl henc.symm (by simp [encodeName]) 1024 (by omega)
  refine ⟨_, _, _, (askedQuestion labels).wire, dnsCreateQuestion_dotted hne h, hbuild, ?_, rfl,
    parse_echo hne (fun l hl => (h l hl).ok) hlen hheader hqdcount howner rest⟩
  have hcount : 12 + ((dotted labels).length + 2) + 4 - 12 = (dotted labels).length + 2 + 4 := by
    omega
  rw [hcount]
  exact slice_request hne (dnsCreateHeader id) _

/-- The round trip at the host name `a.bc`, with one answer of four bytes. -/
theorem dnsQuery_roundtrip_sample :
    ∃ question len request echo,
      dnsCreateQuestion true (dotted [[97], [98, 99]]) = .ok (0, question) ∧
      dnsBuildRequest (dnsCreateHeader 7) question (List.replicate 1024 (some 0))
        = .ok (len, request) ∧
      slice request 12 (len - 12) = .ok (echo.map some) ∧
      len = 12 + question.length + 4 ∧
      ∃ n, ∀ fuel, n ≤ fuel →
        let response := [0, 7, 0x81, 0x80, 0, 1, 0, 1, 0, 0, 0, 0]
          ++ (echo ++ ([(⟨[0xC0, 0x0C], dnsHost, 1, 0, 60, [10, 0, 0, 7], by decide⟩
            : Record)].flatMap Record.wire ++ []))
        (∃ answers, parseHead fuel response = .ok (1, answers, 12 + question.length + 4)) ∧
        ∀ p ∈ placedFrom (12 + question.length + 4)
            [(⟨[0xC0, 0x0C], dnsHost, 1, 0, 60, [10, 0, 0, 7], by decide⟩ : Record)],
          dnsParseName fuel response p.1 (List.replicate 128 0) 0
            = .ok (dotted [[97], [98, 99]]
                ++ List.replicate (128 - (dotted [[97], [98, 99]]).length) 0,
                (dotted [[97], [98, 99]]).length) := by
  have hlabel : ∀ l ∈ [[97], [98, 99]], HostLabel l := by
    intro l hl
    rcases List.mem_pair.1 hl with rfl | rfl
    · exact ⟨by unfold LabelOk; decide, by decide, by decide⟩
    · exact ⟨by unfold LabelOk; decide, by decide, by decide⟩
  exact dnsQuery_roundtrip (by decide) hlabel (by decide) 7 rfl (by unfold HasAt; decide)
    (by simp) []

end CppExample.Dns
