/-
# Decoding the answer section

A response as RFC 1035 lays it out: a header with the two counts, the questions with
uncompressed names, and the answer records.  A well-formed message is one whose owner
fields are two-byte pointers, whose records are host addresses or canonical names, and
whose names are the plain ones of `Names.lean` with a text of at most 127 bytes.

The loops of `dns_parse_response` are followed section by section.  Each section comes
with a lemma that says where the cursor stands behind it; the lemma about the answer loop
carries the entries of `list` that are already filled.
-/
import CppExample.Dns.Rounds

namespace CppExample.Dns
open Lib

/-! ## Well-formed messages -/

/-- There is a plain name at `off`, it stands for `ls`, its text has at most 127 bytes and
no NUL among them. -/
structure NameIs (msg : List UInt8) (off : ℕ) (ls : List (List UInt8)) : Prop where
  nameAt : NameAt msg (Plain msg) off ls
  length_le : (dotted ls).length ≤ 127
  no_nul : ∀ l ∈ ls, (0 : UInt8) ∉ l

/-- The well-formed messages; `names` gives the labels of the name that is reached at an
offset. -/
structure WellFormed (m : Message) (names : ℕ → List (List UInt8)) : Prop where
  size : m.wire.length ≤ 1024
  labels : ∀ q ∈ m.questions, ∀ l ∈ q.labels, LabelOk l
  owner : ∀ p ∈ m.placed, ∃ nn, p.2.ownerField = [0xC0, nn]
  type : ∀ p ∈ m.placed, p.2.type = dnsHost ∨ p.2.type = dnsCname
  ownerName : ∀ p ∈ m.placed, NameIs m.wire p.1 (names p.1)
  targetName : ∀ p ∈ m.placed, p.2.type = dnsCname →
    NameIs m.wire (p.1 + 12) (names (p.1 + 12))

/-- What a record contributes to the result: the text of its owner and its address, when
it is a host address of four bytes. -/
def addressOf (names : ℕ → List (List UInt8)) (p : ℕ × Record) : Option DnsItem :=
  if p.2.type = dnsHost ∧ p.2.rdata.length = 4 then
    some ⟨some (dotted (names p.1)), some (dottedQuad p.2.rdata)⟩
  else none

/-- The addresses of a message, in message order. -/
def Message.addresses (m : Message) (names : ℕ → List (List UInt8)) : List DnsItem :=
  m.placed.filterMap (addressOf names)

lemma dotted_no_nul {ls : List (List UInt8)} (h : ∀ l ∈ ls, (0 : UInt8) ∉ l) :
    (0 : UInt8) ∉ dotted ls := by
  induction ls with
  | nil => simp [dotted_nil]
  | cons l ls ih =>
    have hl := h l (by simp)
    have ih' := ih fun l' hl' => h l' (by simp [hl'])
    have hdot : (0 : UInt8) ≠ dot := by decide
    by_cases hls : ls = []
    · rw [hls, dotted_singleton]
      exact hl
    · rw [dotted_cons_of_ne_nil l hls]
      simp only [List.mem_append, List.mem_cons]
      tauto

/-! ## The question section -/

section Sections

variable {buf : List UInt8}

/-- The inner skip loop stops right behind an uncompressed name. -/
lemma skipsName_encodeName {ls : List (List UInt8)} (hl : ∀ l ∈ ls, LabelOk l) {off : ℕ}
    (h : HasAt buf off (encodeName ls)) : SkipsName buf off (off + (encodeName ls).length) := by
  induction ls generalizing off with
  | nil => exact .root h.getElem?
  | cons l ls ih =>
    have hlok := hl l (by simp)
    have henc : encodeName (l :: ls) = encodeLabel l ++ encodeName ls := by simp [encodeName]
    rw [henc] at h ⊢
    obtain ⟨hlabel, hrest⟩ := hasAt_append_iff.1 h
    have hih := ih (fun l' hl' => hl l' (by simp [hl'])) hrest
    rw [List.length_append, ← Nat.add_assoc]
    refine .label hlabel.getElem? hlok.ofNat_ne_zero ?_
    rw [hlok.toNat, Nat.add_comm l.length 1, ← length_encodeLabel]
    exact hih

/-- The skip loop stops right behind the questions. -/
lemma skips_wire {qs : List Question} (hq : ∀ q ∈ qs, ∀ l ∈ q.labels, LabelOk l) {off : ℕ}
    (h : HasAt buf off (qs.flatMap Question.wire)) :
    Skips buf qs.length off (off + (qs.flatMap Question.wire).length) := by
  induction qs generalizing off with
  | nil => exact .zero off
  | cons q qs ih =>
    rw [List.flatMap_cons] at h ⊢
    obtain ⟨hqw, hrest⟩ := hasAt_append_iff.1 h
    have hname := skipsName_encodeName (hq q (by simp)) (hasAt_append_iff.1 hqw).1
    have hlen : q.wire.length = (encodeName q.labels).length + 4 := by simp [Question.wire]
    refine .succ hname ?_
    rw [List.length_append, ← Nat.add_assoc, Nat.add_assoc off, ← hlen]
    exact ih (fun q' hq' => hq q' (by simp [hq'])) hrest

/-! ## The answer section -/

/-- The type and the length of the data, in a record with a two-byte owner field. -/
lemma Record.hasAt_type_length {r : Record} {off : ℕ} (howner : r.ownerField.length = 2)
    (h : HasAt buf off r.wire) : HasAt buf (off + 2) (be16 r.type) ∧
      HasAt buf (off + 10) (be16 (UInt16.ofNat r.rdata.length)) := by
  rw [Record.wire, hasAt_append_iff, hasAt_append_iff, howner] at h
  obtain ⟨-, hfixed, -⟩ := h
  simp only [Record.fixed, hasAt_append_iff, length_be16] at hfixed
  obtain ⟨htype, -, -, -, hlen⟩ := hfixed
  exact ⟨htype, hlen⟩

/-- Decoding the name at the offset into one of the zeroed arrays of 128 bytes gives the
text. -/
def Reads (buf : List UInt8) (off : ℕ) (text : List UInt8) : Prop :=
  ∃ n, ∀ fuel, n ≤ fuel → ∃ aname len,
    dnsParseName fuel buf off (List.replicate 128 0) 0 = .ok (aname, len) ∧ cstr aname = .ok text

lemma Spelled.reads {off : ℕ} {ls : List (List UInt8)} (h : Spelled buf off ls)
    (hle : (dotted ls).length ≤ 127) : Reads buf off (cutAtNul (dotted ls)) := by
  obtain ⟨n, hn⟩ := dnsParseName_spelled h
  refine ⟨n, fun fuel hfuel => ⟨_, _, hn fuel hfuel 128 (by omega), ?_⟩⟩
  exact cstr_append_replicate _ (Or.inl (by omega))

lemma NameIs.reads {off : ℕ} {ls : List (List UInt8)} (h : NameIs buf off ls) :
    Reads buf off (dotted ls) := by
  have hreads := h.nameAt.spelled.reads h.length_le
  rw [cutAtNul_of_notMem (dotted_no_nul h.no_nul)] at hreads
  exact hreads

/-- What the answer loop needs of a record at its offset; `texts` gives the text of the name
that is reached at an offset. -/
structure RecordReads (buf : List UInt8) (texts : ℕ → List UInt8) (p : ℕ × Record) : Prop where
  owner : p.2.ownerField.length = 2
  type : p.2.type = dnsHost ∨ p.2.type = dnsCname
  ownerName : Reads buf p.1 (texts p.1)
  targetName : p.2.type = dnsCname → ∃ text, Reads buf (p.1 + 12) text

/-- What a record contributes to the result, when the text of its owner is known. -/
def entryOf (texts : ℕ → List UInt8) (p : ℕ × Record) : Option DnsItem :=
  if p.2.type = dnsHost ∧ p.2.rdata.length = 4 then
    some ⟨some (texts p.1), some (dottedQuad p.2.rdata)⟩
  else none

variable {texts : ℕ → List UInt8}

/-- The data of a record stand behind its twelve other bytes. -/
lemma Record.hasAt_rdata {r : Record} {off : ℕ} (howner : r.ownerField.length = 2)
    (h : HasAt buf off r.wire) : HasAt buf (off + 12) r.rdata := by
  rw [Record.wire, hasAt_append_iff, hasAt_append_iff, howner, length_fixed] at h
  exact h.2.2

lemma entryOf_of_host {off : ℕ} {r : Record} (htype : r.type = dnsHost)
    (h4 : r.rdata.length = 4) :
    entryOf texts (off, r) = some ⟨some (texts off), some (dottedQuad r.rdata)⟩ := by
  rw [entryOf, if_pos ⟨htype, h4⟩]

lemma entryOf_eq_none {off : ℕ} {r : Record} (h : ¬ (r.type = dnsHost ∧ r.rdata.length = 4)) :
    entryOf texts (off, r) = none := by
  rw [entryOf, if_neg h]

/-- The text that can be read is the one that is spelled, up to its first NUL. -/
lemma Reads.exists_spells {off : ℕ} {text : List UInt8} (h : Reads buf off text) :
    ∃ t, Spells buf off t ∧ t.length ≤ 128 ∧ (0 < 128 - t.length ∨ 0 ∈ t) ∧
      text = cutAtNul t := by
  obtain ⟨n, hn⟩ := h
  obtain ⟨aname, len, hname, hcstr⟩ := hn n le_rfl
  obtain ⟨t, hspells, hroom, rfl, -⟩ := spells_of_dnsParseName hname
  exact ⟨t, hspells, hroom, of_cstr hcstr⟩

lemma Record.toNat_length (r : Record) : (UInt16.ofNat r.rdata.length).toNat = r.rdata.length := by
  rw [UInt16.toNat_ofNat', Nat.mod_eq_of_lt r.rdata_lt]

lemma Record.length_wire {r : Record} (howner : r.ownerField.length = 2) :
    r.wire.length = 12 + r.rdata.length := by
  simp only [Record.wire, List.length_append, howner, length_fixed]
  omega

/-- An answer as the parser expects it: a two-byte owner field, and one of the two types. -/
def Expected (r : Record) : Prop :=
  r.ownerField.length = 2 ∧ (r.type = dnsHost ∨ r.type = dnsCname)

/-- A round on a record whose fixed fields are in the buffer. -/
lemma round_iff {r : Record} {p q : ℕ} {o : Option DnsItem} (hr : Expected r)
    (htype : HasAt buf (p + 2) (be16 r.type))
    (hlen : HasAt buf (p + 10) (be16 (UInt16.ofNat r.rdata.length))) :
    Round buf p q o ↔ q = p + r.wire.length ∧ ∃ text, Spells buf p text ∧ text.length ≤ 128 ∧
      ((r.type = dnsCname ∧ o = none ∧ ∃ target, Spells buf (p + 12) target ∧
          target.length ≤ 128) ∨
        (r.type = dnsHost ∧ r.rdata.length ≠ 4 ∧ o = none) ∨
        (r.type = dnsHost ∧ r.rdata.length = 4 ∧ (0 < 128 - text.length ∨ 0 ∈ text) ∧
          ∃ netip, netip.length = 4 ∧ HasAt buf (p + 12) netip ∧
            o = some ⟨some (cutAtNul text), some (dottedQuad netip)⟩)) := by
  have hwire := Record.length_wire hr.1
  have hnum := r.toNat_length
  constructor
  · intro h
    cases h with
    | cname head htarget hroom =>
      have ht := be16_unique htype head.type
      rw [← be16_unique hlen head.length, hnum]
      exact ⟨by omega, _, head.owner, head.room, Or.inl ⟨ht, rfl, _, htarget, hroom⟩⟩
    | address head hdata h4 hnul =>
      have ht := be16_unique htype head.type
      have hn := be16_unique hlen head.length
      rw [hn] at hnum
      have hfour : (4 : UInt16).toNat = 4 := rfl
      rw [hfour] at hnum
      exact ⟨by omega, _, head.owner, head.room,
        Or.inr (Or.inr ⟨ht, hnum.symm, hnul, _, h4, hdata, rfl⟩)⟩
    | otherLength head hn =>
      have ht := be16_unique htype head.type
      rw [← be16_unique hlen head.length, hnum] at hn ⊢
      exact ⟨by omega, _, head.owner, head.room, Or.inr (Or.inl ⟨ht, hn, rfl⟩)⟩
    | otherType head hcname hhost =>
      rw [← be16_unique htype head.type] at hcname hhost
      exact absurd hr.2 (not_or.2 ⟨hhost, hcname⟩)
  · rintro ⟨rfl, text, howner, hroom, hcases⟩
    have head : Head buf p text r.type (UInt16.ofNat r.rdata.length) :=
      ⟨howner, hroom, htype, hlen⟩
    rw [hwire, ← Nat.add_assoc, ← hnum]
    rcases hcases with ⟨ht, rfl, target, htarget, hroom'⟩ | ⟨ht, hne, rfl⟩ |
      ⟨ht, h4, hnul, netip, hnetip, hdata, rfl⟩
    · rw [ht] at head
      exact .cname head htarget hroom'
    · rw [ht] at head
      exact .otherLength head (by rwa [hnum])
    · have hfour : UInt16.ofNat r.rdata.length = 4 := by rw [h4]; rfl
      rw [ht, hfour] at head
      rw [hfour]
      exact .address head hdata hnetip hnul

section Kinds

variable {r : Record} {p q : ℕ} {o : Option DnsItem}

/-- The three kinds of answers. -/
lemma Expected.cases (hr : Expected r) : r.type = dnsCname ∨
    r.type = dnsHost ∧ r.rdata.length ≠ 4 ∨ r.type = dnsHost ∧ r.rdata.length = 4 := by
  rcases hr.2 with hhost | hcname
  · by_cases h4 : r.rdata.length = 4
    · exact Or.inr (Or.inr ⟨hhost, h4⟩)
    · exact Or.inr (Or.inl ⟨hhost, h4⟩)
  · exact Or.inl hcname

/-- A round on a canonical name. -/
lemma round_cname_iff (hr : Expected r) (htype : HasAt buf (p + 2) (be16 r.type))
    (hlen : HasAt buf (p + 10) (be16 (UInt16.ofNat r.rdata.length))) (ht : r.type = dnsCname) :
    Round buf p q o ↔ q = p + r.wire.length ∧ o = none ∧
      (∃ text, Spells buf p text ∧ text.length ≤ 128) ∧
      ∃ target, Spells buf (p + 12) target ∧ target.length ≤ 128 := by
  have hne : r.type ≠ dnsHost := by rw [ht]; decide
  rw [round_iff hr htype hlen]
  constructor
  · rintro ⟨hq, text, hs, hroom, ⟨-, ho, htarget⟩ | ⟨hhost, -⟩ | ⟨hhost, -⟩⟩
    · exact ⟨hq, ho, ⟨text, hs, hroom⟩, htarget⟩
    · exact absurd hhost hne
    · exact absurd hhost hne
  · rintro ⟨hq, ho, ⟨text, hs, hroom⟩, htarget⟩
    exact ⟨hq, text, hs, hroom, Or.inl ⟨ht, ho, htarget⟩⟩

/-- A round on a host address that has not four bytes. -/
lemma round_otherLength_iff (hr : Expected r) (htype : HasAt buf (p + 2) (be16 r.type))
    (hlen : HasAt buf (p + 10) (be16 (UInt16.ofNat r.rdata.length))) (ht : r.type = dnsHost)
    (hne : r.rdata.length ≠ 4) :
    Round buf p q o ↔ q = p + r.wire.length ∧ o = none ∧
      ∃ text, Spells buf p text ∧ text.length ≤ 128 := by
  rw [round_iff hr htype hlen]
  constructor
  · rintro ⟨hq, text, hs, hroom, ⟨hcname, -⟩ | ⟨-, -, ho⟩ | ⟨-, h4, -⟩⟩
    · exact absurd (ht.symm.trans hcname) (by decide)
    · exact ⟨hq, ho, text, hs, hroom⟩
    · exact absurd h4 hne
  · rintro ⟨hq, ho, text, hs, hroom⟩
    exact ⟨hq, text, hs, hroom, Or.inr (Or.inl ⟨ht, hne, ho⟩)⟩

/-- A round on a host address. -/
lemma round_address_iff (hr : Expected r) (htype : HasAt buf (p + 2) (be16 r.type))
    (hlen : HasAt buf (p + 10) (be16 (UInt16.ofNat r.rdata.length))) (ht : r.type = dnsHost)
    (h4 : r.rdata.length = 4) :
    Round buf p q o ↔ q = p + r.wire.length ∧ ∃ text, Spells buf p text ∧ text.length ≤ 128 ∧
      (0 < 128 - text.length ∨ 0 ∈ text) ∧ ∃ netip, netip.length = 4 ∧
        HasAt buf (p + 12) netip ∧ o = some ⟨some (cutAtNul text), some (dottedQuad netip)⟩ := by
  rw [round_iff hr htype hlen]
  constructor
  · rintro ⟨hq, text, hs, hroom, ⟨hcname, -⟩ | ⟨-, hne, -⟩ | ⟨-, -, hentry⟩⟩
    · exact absurd (ht.symm.trans hcname) (by decide)
    · exact absurd h4 hne
    · exact ⟨hq, text, hs, hroom, hentry⟩
  · rintro ⟨hq, text, hs, hroom, hentry⟩
    exact ⟨hq, text, hs, hroom, Or.inr (Or.inr ⟨ht, h4, hentry⟩)⟩

end Kinds

/-- One round of the answer loop: the cursor moves to the next record, and an address is
added. -/
lemma RecordReads.round {off : ℕ} {r : Record} (hr : RecordReads buf texts (off, r))
    (h : HasAt buf off r.wire) :
    Round buf off (off + r.wire.length) (entryOf texts (off, r)) := by
  have hexpected : Expected r := ⟨hr.owner, hr.type⟩
  obtain ⟨text, hspells, hroom, hnul, htext⟩ := hr.ownerName.exists_spells
  obtain ⟨htype, hlen⟩ := r.hasAt_type_length hexpected.1 h
  rcases hexpected.cases with hcname | ⟨hhost, hne⟩ | ⟨hhost, h4⟩
  · have hne : r.type ≠ dnsHost := by rw [hcname]; decide
    obtain ⟨name, ht⟩ := hr.targetName hcname
    obtain ⟨target, htarget, hroom', -⟩ := ht.exists_spells
    rw [entryOf_eq_none fun hc => hne hc.1, round_cname_iff hexpected htype hlen hcname]
    exact ⟨rfl, rfl, ⟨text, hspells, hroom⟩, target, htarget, hroom'⟩
  · rw [entryOf_eq_none fun hc => hne hc.2, round_otherLength_iff hexpected htype hlen hhost hne]
    exact ⟨rfl, rfl, text, hspells, hroom⟩
  · rw [entryOf_of_host hhost h4, show texts off = cutAtNul text from htext,
      round_address_iff hexpected htype hlen hhost h4]
    exact ⟨rfl, text, hspells, hroom, hnul, r.rdata, h4, r.hasAt_rdata hexpected.1 h, rfl⟩

/-- The answer loop, by induction on the records: behind it the cursor is at the end of the
section, and it has added the addresses. -/
lemma rounds_of_recordReads {rs : List Record} {off : ℕ}
    (hok : ∀ p ∈ placedFrom off rs, RecordReads buf texts p)
    (h : HasAt buf off (rs.flatMap Record.wire)) :
    Rounds buf rs.length off ((placedFrom off rs).filterMap (entryOf texts))
      (off + (rs.flatMap Record.wire).length) := by
  induction rs generalizing off with
  | nil => exact .zero off
  | cons r rs ih =>
    rw [List.flatMap_cons] at h ⊢
    obtain ⟨hrec, hrest⟩ := hasAt_append_iff.1 h
    have hround := (hok (off, r) (by simp [placedFrom])).round hrec
    have hrounds := ih (fun p hp => hok p (by simp [placedFrom, hp])) hrest
    have hfound : (placedFrom off (r :: rs)).filterMap (entryOf texts)
        = (entryOf texts (off, r)).toList
          ++ (placedFrom (off + r.wire.length) rs).filterMap (entryOf texts) := by
      rw [placedFrom, List.filterMap_cons]
      cases entryOf texts (off, r) <;> rfl
    rw [hfound, List.length_append, ← Nat.add_assoc]
    exact .succ hround hrounds

end Sections

lemma NameIs.append_right {msg : List UInt8} {off : ℕ} {ls : List (List UInt8)}
    (h : NameIs msg off ls) (pad : List UInt8) : NameIs (msg ++ pad) off ls :=
  ⟨h.nameAt.append_right pad, h.length_le, h.no_nul⟩

/-! ## The whole response -/

/-- Pieces that have some minimal length. -/
lemma mul_length_le_length_flatMap {α β : Type*} {f : α → List β} {xs : List α} {c : ℕ}
    (h : ∀ x ∈ xs, c ≤ (f x).length) : c * xs.length ≤ (xs.flatMap f).length := by
  induction xs with
  | nil => simp
  | cons x xs ih =>
    have hx := h x (by simp)
    have ih' := ih fun y hy => h y (by simp [hy])
    rw [List.flatMap_cons, List.length_append, List.length_cons, Nat.mul_succ]
    omega

/-- The counts of a message that fits in the receive buffer fit in their low bytes. -/
lemma Message.counts_lt {m : Message} (hsize : m.wire.length ≤ 1024) :
    m.questions.length < 256 ∧ m.answers.length < 256 := by
  have hq : 5 * m.questions.length ≤ m.questionSection.length :=
    mul_length_le_length_flatMap fun q _ => by
      simp only [Question.wire, encodeName, List.length_append, length_be16, List.length_singleton]
      omega
  have ha : 10 * m.answers.length ≤ (m.answers.flatMap Record.wire).length :=
    mul_length_le_length_flatMap fun r _ => by
      simp only [Record.wire, List.length_append, length_fixed]
      omega
  simp only [Message.wire, List.length_append] at hsize
  omega

/-- The way to the answers, over uncompressed questions. -/
lemma starts_of_questions {buf : List UInt8} {qs : List Question} {answers : UInt16}
    (hqd : HasAt buf 4 (be16 (UInt16.ofNat qs.length))) (hqn : qs.length < 65536)
    (han : HasAt buf 6 (be16 answers)) (hq : HasAt buf 12 (qs.flatMap Question.wire))
    (hl : ∀ q ∈ qs, ∀ l ∈ q.labels, LabelOk l) :
    Starts buf qs.length answers.toNat (12 + (qs.flatMap Question.wire).length) := by
  refine ⟨⟨_, hqd, ?_⟩, ⟨_, han, rfl⟩, skips_wire hl hq⟩
  rw [UInt16.toNat_ofNat', Nat.mod_eq_of_lt hqn]

/-- The sections of a message, in a buffer that begins with it. -/
lemma Message.hasAt_wire (m : Message) (pad : List UInt8) :
    HasAt (m.wire ++ pad) 0 m.header ∧ HasAt (m.wire ++ pad) 12 m.questionSection ∧
      HasAt (m.wire ++ pad) (12 + m.questionSection.length) (m.answers.flatMap Record.wire) := by
  have hwire : HasAt (m.wire ++ pad) 0 m.wire := ⟨pad, rfl⟩
  nth_rewrite 2 [Message.wire] at hwire
  rw [hasAt_append_iff, hasAt_append_iff, length_header, Nat.zero_add] at hwire
  exact hwire

/-- The counts in the header of a message. -/
lemma Message.hasAt_counts (m : Message) (pad : List UInt8) :
    HasAt (m.wire ++ pad) 4 (be16 (UInt16.ofNat m.questions.length)) ∧
      HasAt (m.wire ++ pad) 6 (be16 (UInt16.ofNat m.answers.length)) := by
  have hheader := (m.hasAt_wire pad).1
  simp only [Message.header, hasAt_append_iff, length_be16, Nat.zero_add] at hheader
  exact ⟨hheader.2.2.1, hheader.2.2.2.1⟩

lemma Message.starts {m : Message} (hsize : m.wire.length ≤ 1024)
    (hl : ∀ q ∈ m.questions, ∀ l ∈ q.labels, LabelOk l) (pad : List UInt8) :
    Starts (m.wire ++ pad) m.questions.length m.answers.length (12 + m.questionSection.length) := by
  obtain ⟨hqn, han⟩ := m.counts_lt hsize
  obtain ⟨hqd, hancount⟩ := m.hasAt_counts pad
  have hstarts := starts_of_questions hqd (by omega) hancount (m.hasAt_wire pad).2.1 hl
  rwa [UInt16.toNat_ofNat', Nat.mod_eq_of_lt (by omega)] at hstarts

lemma WellFormed.reads {m : Message} {names : ℕ → List (List UInt8)} (h : WellFormed m names)
    (pad : List UInt8) :
    ∀ p ∈ m.placed, RecordReads (m.wire ++ pad) (fun off => dotted (names off)) p := by
  intro p hp
  obtain ⟨nn, hnn⟩ := h.owner p hp
  exact ⟨by rw [hnn]; rfl, h.type p hp, ((h.ownerName p hp).append_right pad).reads,
    fun ht => ⟨_, ((h.targetName p hp ht).append_right pad).reads⟩⟩

/-- **Decoding of the answer section.**  On every well-formed message `dns_parse_response`
ends and returns the addresses of the message, in message order, in a list with one entry
for each answer.  Taking `pad = []` the message is all there is to read, so no read leaves
it; with zero bytes for `pad` it is the receive buffer of the client. -/
theorem dnsParseResponse_wellFormed {m : Message} {names : ℕ → List (List UInt8)}
    (h : WellFormed m names) (pad : List UInt8) :
    ∃ n, ∀ fuel, n ≤ fuel →
      dnsParseResponse fuel true (m.wire ++ pad)
        = .ok (((m.addresses names).length : ℤ), some (m.addresses names
            ++ List.replicate (m.answers.length - (m.addresses names).length) DnsItem.null))
      ∧ dnsParseResponse fuel false (m.wire ++ pad) = .ok (-1, none) := by
  have hstarts := Message.starts h.size h.labels pad
  obtain ⟨n, hn⟩ := (rounds_of_recordReads (h.reads pad)
    (m.hasAt_wire pad).2.2).dnsParseResponse_eq hstarts
  obtain ⟨k, hk⟩ := hstarts.parseHead_eq
  refine ⟨max n k, fun fuel hfuel => ⟨hn fuel (le_of_max_le_left hfuel), ?_⟩⟩
  rw [dnsParseResponse, hk fuel (le_of_max_le_right hfuel)]
  rfl

/-- An answer section with a canonical name and an address of the name that was asked
for. -/
def sampleMessage : Message where
  id := 7
  flags := 0x8180
  nscount := 0
  arcount := 0
  questions := [⟨[[97]], 1, 1⟩]
  answers := [⟨[0xC0, 12], dnsCname, 1, 0, 60, [1, 98, 0xC0, 12], by decide⟩,
    ⟨[0xC0, 31], dnsHost, 1, 0, 60, [10, 0, 0, 7], by decide⟩]

/-- The names of `sampleMessage`: `a` is the question, `b.a` the canonical name. -/
def sampleNames (off : ℕ) : List (List UInt8) :=
  if off = 19 then [[97]] else [[98], [97]]

lemma nameAt_sample_question :
    NameAt sampleMessage.wire (Plain sampleMessage.wire) 12 [[97]] :=
  .label (by unfold LabelOk; decide) (by unfold HasAt; decide) (.root (by decide))

lemma nameAt_sample_target :
    NameAt sampleMessage.wire (Plain sampleMessage.wire) 31 [[98], [97]] :=
  .label (by unfold LabelOk; decide) (by unfold HasAt; decide)
    (.plain 12 (by unfold HasAt; decide) (by decide) (by decide) nameAt_sample_question)

lemma sampleMessage_wellFormed : WellFormed sampleMessage sampleNames := by
  have howner : NameIs sampleMessage.wire 19 [[97]] :=
    ⟨.plain 12 (by unfold HasAt; decide) (by decide) (by decide) nameAt_sample_question,
      by decide, by decide⟩
  have htarget : NameIs sampleMessage.wire 31 [[98], [97]] :=
    ⟨nameAt_sample_target, by decide, by decide⟩
  have howner' : NameIs sampleMessage.wire 35 [[98], [97]] :=
    ⟨.plain 31 (by unfold HasAt; decide) (by decide) (by decide) nameAt_sample_target,
      by decide, by decide⟩
  have hmem : ∀ p ∈ sampleMessage.placed,
      (p.1 = 19 ∧ p.2.ownerField = [0xC0, 12] ∧ p.2.type = dnsCname)
        ∨ (p.1 = 35 ∧ p.2.ownerField = [0xC0, 31] ∧ p.2.type = dnsHost) := by decide
  refine ⟨by decide, by unfold LabelOk; decide, ?_, ?_, ?_, ?_⟩
  · intro p hp
    rcases hmem p hp with ⟨-, ho, -⟩ | ⟨-, ho, -⟩
    · exact ⟨12, ho⟩
    · exact ⟨31, ho⟩
  · intro p hp
    rcases hmem p hp with ⟨-, -, ht⟩ | ⟨-, -, ht⟩
    · exact Or.inr ht
    · exact Or.inl ht
  · intro p hp
    rcases hmem p hp with ⟨h1, -, -⟩ | ⟨h1, -, -⟩
    · rw [h1]
      exact howner
    · rw [h1]
      exact howner'
  · intro p hp ht
    rcases hmem p hp with ⟨h1, -, -⟩ | ⟨-, -, ht'⟩
    · rw [h1]
      exact htarget
    · rw [ht'] at ht
      exact absurd ht (by decide)

/-- The hypothesis of `dnsParseResponse_wellFormed` holds of `sampleMessage`, which yields
the address 10.0.0.7 for `b.a`. -/
theorem dnsParseResponse_sampleMessage :
    sampleMessage.addresses sampleNames
        = [⟨some [98, 46, 97], some [49, 48, 46, 48, 46, 48, 46, 55]⟩] ∧
    ∃ n, ∀ fuel, n ≤ fuel →
      dnsParseResponse fuel true (sampleMessage.wire ++ [])
        = .ok (((sampleMessage.addresses sampleNames).length : ℤ),
            some (sampleMessage.addresses sampleNames
              ++ List.replicate (sampleMessage.answers.length
                  - (sampleMessage.addresses sampleNames).length) DnsItem.null))
      ∧ dnsParseResponse fuel false (sampleMessage.wire ++ []) = .ok (-1, none) :=
  ⟨by decide, dnsParseResponse_wellFormed sampleMessage_wellFormed []⟩

end CppExample.Dns
