/-
# Names in two buffers

A field of a message holds a name as a sequence of labels that is ended by a zero byte or by
a pointer (`NameField`); the names that pointers lead to lie between the header and some
offset of the message (`NameIn`).

`SameName` says that two buffers have the same bytes for a name, at offsets that may be
different.  The same text is spelled in both, and so the rounds of the answer loop on records
whose names are the same in both add the same entries.  This is how a message is compared with
another one that was made from it.
-/
import CppExample.Dns.Response

namespace CppExample.Dns
open Lib

variable {buf buf' msg : List UInt8} {limit : ℕ} {allowed : ℕ → Prop}

/-- A name in a field of a message: labels, ended by a zero byte, or by a pointer with this
second byte. -/
structure NameField where
  labels : List (List UInt8)
  pointer : Option UInt8
deriving DecidableEq, Repr

/-- The end of a name. -/
def NameField.tail (f : NameField) : List UInt8 :=
  match f.pointer with
  | none => [0]
  | some lo => [0xC0, lo]

/-- The bytes of the name. -/
def NameField.bytes (f : NameField) : List UInt8 := f.labels.flatMap encodeLabel ++ f.tail

/-- A name that starts at an offset of the message, all of it behind the header and in front
of `limit`, with backward pointers to offsets below 256. -/
inductive NameIn (msg : List UInt8) (limit : ℕ) (allowed : ℕ → Prop) :
    ℕ → List (List UInt8) → Prop
  /-- The zero byte ends a name. -/
  | root {off : ℕ} (hlo : 12 ≤ off) (hhi : off < limit) (h : msg[off]? = some 0) :
      NameIn msg limit allowed off []
  /-- A label, and the rest of the name right behind it. -/
  | label {off : ℕ} {l : List UInt8} {ls : List (List UInt8)} (hlo : 12 ≤ off) (hl : LabelOk l)
      (h : HasAt msg off (encodeLabel l))
      (rest : NameIn msg limit allowed (off + (1 + l.length)) ls) :
      NameIn msg limit allowed off (l :: ls)
  /-- A pointer to an earlier offset, where the rest of the name is. -/
  | pointer {off : ℕ} {lo : UInt8} {ls : List (List UInt8)} (hlo : 12 ≤ off) (hhi : off + 1 < limit)
      (h : HasAt msg off [0xC0, lo]) (hlt : lo.toNat < off) (ha : allowed lo.toNat)
      (rest : NameIn msg limit allowed lo.toNat ls) : NameIn msg limit allowed off ls

/-- The name in the field has the labels `ls`; if it ends in a pointer, the rest of it is in
front of `limit`. -/
structure NameField.Names (f : NameField) (msg : List UInt8) (limit : ℕ) (allowed : ℕ → Prop)
    (ls : List (List UInt8)) : Prop where
  labels : ∀ l ∈ f.labels, LabelOk l
  root : f.pointer = none → ls = f.labels
  pointer : ∀ lo, f.pointer = some lo → allowed lo.toNat ∧
    ∃ ls', NameIn msg limit allowed lo.toNat ls' ∧ ls = f.labels ++ ls'

/-! ## The same name in two buffers -/

/-- The same bytes are read for the names at the two offsets. -/
inductive SameName (buf buf' : List UInt8) : ℕ → ℕ → Prop
  | root {p p' : ℕ} (h : buf[p]? = some 0) (h' : buf'[p']? = some 0) : SameName buf buf' p p'
  | label {p p' : ℕ} {l : List UInt8} (hl : LabelOk l) (h : HasAt buf p (encodeLabel l))
      (h' : HasAt buf' p' (encodeLabel l))
      (rest : SameName buf buf' (p + (1 + l.length)) (p' + (1 + l.length))) :
      SameName buf buf' p p'
  | pointer {p p' : ℕ} {lo : UInt8} (h : HasAt buf p [0xC0, lo]) (h' : HasAt buf' p' [0xC0, lo])
      (rest : SameName buf buf' lo.toNat lo.toNat) : SameName buf buf' p p'

/-- The names begin with the same byte. -/
lemma SameName.byte_eq {p p' : ℕ} (h : SameName buf buf' p p') :
    ∃ b, buf[p]? = some b ∧ buf'[p']? = some b := by
  cases h with
  | root h h' => exact ⟨0, h, h'⟩
  | label _ h h' _ => exact ⟨_, h.getElem?, h'.getElem?⟩
  | pointer h h' _ => exact ⟨_, h.getElem?, h'.getElem?⟩

/-- The same text is spelled in both buffers. -/
lemma SameName.spells_iff {p p' : ℕ} (h : SameName buf buf' p p')
    {text : List UInt8} : Spells buf p text ↔ Spells buf' p' text := by
  induction h generalizing text with
  | root h h' => rw [spells_iff_of_zero h, spells_iff_of_zero h']
  | label hl h h' rest ih =>
    obtain ⟨next, hnext, hnext'⟩ := rest.byte_eq
    rw [(Follows.label hl.taken h hnext).spells_iff, (Follows.label hl.taken h' hnext').spells_iff]
    simp only [ih]
  | pointer h h' rest ih =>
    rw [(Follows.pointer h (by decide)).spells_iff, (Follows.pointer h' (by decide)).spells_iff]
    simp only [ih]

/-- The two buffers have the same bytes behind the header and in front of `limit`. -/
def AgreeUpTo (limit : ℕ) (buf buf' : List UInt8) : Prop :=
  ∀ i, 12 ≤ i → i < limit → buf[i]? = buf'[i]?

lemma AgreeUpTo.hasAt {off : ℕ} {xs : List UInt8} (h : AgreeUpTo limit buf buf')
    (hx : HasAt buf off xs) (hlo : 12 ≤ off) (hhi : off + xs.length ≤ limit) :
    HasAt buf' off xs := by
  rw [hasAt_iff_getElem?] at hx ⊢
  intro i hi
  rw [← h (off + i) (by omega) (by omega)]
  exact hx i hi

lemma NameIn.lt_limit {off : ℕ} {ls : List (List UInt8)} (h : NameIn msg limit allowed off ls) :
    12 ≤ off ∧ off < limit := by
  induction h with
  | root hlo hhi h => exact ⟨hlo, hhi⟩
  | label hlo hl h rest ih => exact ⟨hlo, by omega⟩
  | pointer hlo hhi h hlt ha rest ih => exact ⟨hlo, by omega⟩

/-- There is a byte at the start of a name. -/
lemma NameIn.exists_byte {off : ℕ} {ls : List (List UInt8)}
    (h : NameIn msg limit allowed off ls) : ∃ b, msg[off]? = some b := by
  cases h with
  | root _ _ h => exact ⟨0, h⟩
  | label _ _ h _ => exact ⟨_, h.getElem?⟩
  | pointer _ _ h _ _ _ => exact ⟨_, h.getElem?⟩

/-- A name in front of `limit` is the same in two buffers that have the message's bytes
there. -/
lemma NameIn.same {off : ℕ} {ls : List (List UInt8)} (h : NameIn msg limit allowed off ls)
    (hb : AgreeUpTo limit msg buf) (hb' : AgreeUpTo limit msg buf') :
    SameName buf buf' off off := by
  induction h with
  | root hlo hhi h => exact .root (hb _ hlo hhi ▸ h) (hb' _ hlo hhi ▸ h)
  | @label off l ls hlo hl h rest ih =>
    have hend := rest.lt_limit.2
    have hle : off + (encodeLabel l).length ≤ limit := by
      rw [length_encodeLabel]
      omega
    exact .label hl (hb.hasAt h hlo hle) (hb'.hasAt h hlo hle) ih
  | pointer hlo hhi h hlt ha rest ih => exact .pointer (hb.hasAt h hlo hhi) (hb'.hasAt h hlo hhi) ih

/-- The name in a field is the same wherever the field is. -/
lemma NameField.Names.same {f : NameField} {ls : List (List UInt8)}
    (h : f.Names msg limit allowed ls) (hb : AgreeUpTo limit msg buf)
    (hb' : AgreeUpTo limit msg buf') {off off' : ℕ} (hf : HasAt buf off f.bytes)
    (hf' : HasAt buf' off' f.bytes) : SameName buf buf' off off' := by
  obtain ⟨labels, tail⟩ := f
  obtain ⟨hl, hroot, hpointer⟩ := h
  -- by induction on the labels of the field; its end is the same for all of them
  have htail : ∀ off off', HasAt buf off (NameField.tail ⟨labels, tail⟩) →
      HasAt buf' off' (NameField.tail ⟨labels, tail⟩) → SameName buf buf' off off' := by
    intro off off' hf hf'
    cases tail with
    | none => exact .root hf.getElem? hf'.getElem?
    | some lo =>
      obtain ⟨-, ls', hin, -⟩ := hpointer lo rfl
      exact .pointer hf hf' (hin.same hb hb')
  simp only [NameField.bytes] at hf hf'
  clear hroot hpointer
  generalize NameField.tail ⟨labels, tail⟩ = fin at hf hf' htail
  simp only at hl
  induction labels generalizing off off' with
  | nil => exact htail off off' hf hf'
  | cons l labels ih =>
    rw [List.flatMap_cons, List.append_assoc, hasAt_append_iff, length_encodeLabel] at hf hf'
    exact .label (hl l (by simp)) hf.1 hf'.1 (ih (fun l' hl' => hl l' (by simp [hl'])) hf.2 hf'.2)

/-- The room that the decoder may take for a name: its labels, and a dot behind each. -/
def roomFor (ls : List (List UInt8)) : ℕ := (ls.map fun l => l.length + 1).sum

lemma roomFor_le (ls : List (List UInt8)) : roomFor ls ≤ (dotted ls).length + 1 := by
  induction ls with
  | nil => simp [roomFor]
  | cons l ls ih =>
    have hcons : roomFor (l :: ls) = l.length + 1 + roomFor ls := by simp [roomFor]
    by_cases hls : ls = []
    · subst hls
      rw [hcons, dotted_singleton]
      simp [roomFor]
    · rw [hcons, dotted_cons_of_ne_nil l hls, List.length_append, List.length_cons]
      omega

/-- Every name spells a text, for which this room is enough. -/
lemma NameIn.exists_spells {off : ℕ} {ls : List (List UInt8)}
    (h : NameIn msg limit allowed off ls) :
    ∃ text, Spells msg off text ∧ text.length ≤ roomFor ls := by
  induction h with
  | root hlo hhi h => exact ⟨[], .root h, Nat.zero_le _⟩
  | @label off l ls hlo hl h rest ih =>
    obtain ⟨text, hspells, hle⟩ := ih
    obtain ⟨next, hnext⟩ := rest.exists_byte
    refine ⟨_, hspells.head (.label hl.taken h hnext), ?_⟩
    have hmark := length_mark_le next
    simp only [roomFor, List.map_cons, List.sum_cons, List.length_append] at hle ⊢
    omega
  | pointer hlo hhi h hlt ha rest ih =>
    obtain ⟨text, hspells, hle⟩ := ih
    exact ⟨_, hspells.head (.pointer h (by decide)), hle⟩

/-! ## The same records in two buffers -/

/-- An answer with names of at most 127 bytes: a host address, or a canonical name. -/
structure AnswerIn (msg : List UInt8) (limit : ℕ) (allowed : ℕ → Prop) (r : Record) : Prop where
  type : r.type = dnsHost ∨ r.type = dnsCname
  owner : ∃ (f : NameField) (ls : List (List UInt8)), r.ownerField = f.bytes ∧
    f.Names msg limit allowed ls ∧ (dotted ls).length ≤ 127
  cname : r.type = dnsCname → ∃ (f : NameField) (ls : List (List UInt8)), r.rdata = f.bytes ∧
    f.Names msg limit allowed ls ∧ (dotted ls).length ≤ 127

/-- A round on a record is one on another record with the same type and data, in another buffer,
when the names are spelled alike there. -/
lemma Round.same {r r' : Record} {off off' q : ℕ} {o : Option DnsItem} (hr : Expected r)
    (howner' : r'.ownerField.length = 2) (hrtype : r'.type = r.type) (hrdata : r'.rdata = r.rdata)
    (h : HasAt buf off r.wire) (h' : HasAt buf' off' r'.wire)
    (hname : ∀ text, Spells buf off text → Spells buf' off' text)
    (htarget : r.type = dnsCname →
      ∀ text, Spells buf (off + 12) text → Spells buf' (off' + 12) text)
    (hround : Round buf off q o) :
    q = off + r.wire.length ∧ Round buf' off' (off' + r'.wire.length) o := by
  have hr' : Expected r' := ⟨howner', hrtype ▸ hr.2⟩
  obtain ⟨htype, hlen⟩ := r.hasAt_type_length hr.1 h
  obtain ⟨htype', hlen'⟩ := r'.hasAt_type_length howner' h'
  obtain ⟨hq, text, hspells, hroom, hcases⟩ := (round_iff hr htype hlen).1 hround
  refine ⟨hq, (round_iff hr' htype' hlen').2 ⟨rfl, text, hname text hspells, hroom, ?_⟩⟩
  rw [hrtype, hrdata]
  rcases hcases with ⟨ht, ho, target, hs, hroom'⟩ | hother |
    ⟨ht, h4, hnul, netip, hnetip, hdata, ho⟩
  · exact Or.inl ⟨ht, ho, target, htarget ht target hs, hroom'⟩
  · exact Or.inr (Or.inl hother)
  · have hdata' := r'.hasAt_rdata howner' h'
    obtain rfl : netip = r.rdata := hdata.unique (r.hasAt_rdata hr.1 h) (hnetip.trans h4.symm)
    rw [hrdata] at hdata'
    exact Or.inr (Or.inr ⟨ht, h4, hnul, _, h4, hdata', ho⟩)

lemma AnswerIn.expected {r : Record} (h : AnswerIn msg limit allowed r)
    (howner : r.ownerField.length = 2) : Expected r := ⟨howner, h.type⟩

/-- The canonical name of an answer is spelled alike in two buffers. -/
lemma AnswerIn.target_iff {r r' : Record} {off off' : ℕ} (h : AnswerIn msg limit allowed r)
    (howner : r.ownerField.length = 2) (howner' : r'.ownerField.length = 2)
    (hrdata : r'.rdata = r.rdata) (hb : AgreeUpTo limit msg buf) (hb' : AgreeUpTo limit msg buf')
    (hw : HasAt buf off r.wire) (hw' : HasAt buf' off' r'.wire) (ht : r.type = dnsCname)
    (text : List UInt8) : Spells buf (off + 12) text ↔ Spells buf' (off' + 12) text := by
  have hdata := r.hasAt_rdata howner hw
  have hdata' := r'.hasAt_rdata howner' hw'
  obtain ⟨g, ls, hg, hnames, -⟩ := h.cname ht
  rw [hg] at hdata
  rw [hrdata, hg] at hdata'
  exact (hnames.same hb hb' hdata hdata').spells_iff


/-- The owner field and the data of a record. -/
lemma Record.hasAt_fields {r : Record} {off : ℕ} (howner : r.ownerField.length = 2)
    (h : HasAt buf off r.wire) : HasAt buf off r.ownerField ∧ HasAt buf (off + 12) r.rdata :=
  ⟨(hasAt_append_iff.1 h).1, r.hasAt_rdata howner h⟩

/-- The answer loop does the same on records with two-byte owner fields that are in both
buffers. -/
lemma Rounds.same {rs : List Record} (hb : AgreeUpTo limit msg buf)
    (hb' : AgreeUpTo limit msg buf')
    (hrs : ∀ r ∈ rs, r.ownerField.length = 2 ∧ AnswerIn msg limit allowed r) {off off' q : ℕ}
    (h : HasAt buf off (rs.flatMap Record.wire)) (h' : HasAt buf' off' (rs.flatMap Record.wire))
    {found : List DnsItem} (hrounds : Rounds buf rs.length off found q) :
    q = off + (rs.flatMap Record.wire).length ∧
      Rounds buf' rs.length off' found (off' + (rs.flatMap Record.wire).length) := by
  induction rs generalizing off off' found with
  | nil =>
    cases hrounds
    exact ⟨rfl, .zero off'⟩
  | cons r rs ih =>
    obtain ⟨howner, hr⟩ := hrs r (by simp)
    rw [List.flatMap_cons, hasAt_append_iff] at h h'
    obtain ⟨q₁, o, rest, hround, hrest, rfl⟩ := rounds_succ_iff.1 hrounds
    -- the names of the record are the same in both buffers
    obtain ⟨f, ls, hf, hnames, -⟩ := hr.owner
    have hown := (r.hasAt_fields howner h.1).1
    have hown' := (r.hasAt_fields howner h'.1).1
    rw [hf] at hown hown'
    have hsame := hnames.same hb hb' hown hown'
    obtain ⟨rfl, hround'⟩ := hround.same (hr.expected howner) howner rfl rfl h.1 h'.1
      (fun text => hsame.spells_iff.1)
      (fun ht text => (hr.target_iff howner howner rfl hb hb' h.1 h'.1 ht text).1)
    obtain ⟨hq, hrest'⟩ := ih (fun r' hr' => hrs r' (by simp [hr'])) h.2 h'.2 hrest
    rw [List.flatMap_cons, List.length_append, ← Nat.add_assoc, ← Nat.add_assoc]
    exact ⟨hq, .succ hround' hrest'⟩

/-- The loop counts only entries that are in the list. -/
lemma parseAnswers_count {answers off fuel cnt : ℕ} {list : List DnsItem} {ptr c : ℕ}
    {l : List DnsItem} (hok : parseAnswers fuel buf answers off cnt list = .ok (ptr, c, l))
    (hcnt : cnt ≤ list.length) : c ≤ l.length := by
  obtain ⟨found, -, rfl, hstore⟩ := rounds_of_parseAnswers hcnt hok
  rw [length_of_store hstore]
  exact le_of_store hstore

/-- What `dns_parse_response` returns is the number of the entries of the list, or -1 without a
list. -/
lemma dnsParseResponse_count {fuel : ℕ} {calloc : Bool} {count : ℤ}
    {domains : Option (List DnsItem)}
    (h : dnsParseResponse fuel calloc buf = .ok (count, domains)) :
    (∃ (n : ℕ) (list : List DnsItem), count = n ∧ domains = some list ∧ n ≤ list.length) ∨
      (count = -1 ∧ domains = none) := by
  rw [dnsParseResponse] at h
  obtain ⟨⟨querys, answers, ptr⟩, -, h⟩ := bind_eq_ok.1 h
  dsimp only at h
  split at h
  · obtain ⟨⟨ptr', cnt, list⟩, hloop, h⟩ := bind_eq_ok.1 h
    cases h
    exact Or.inl ⟨cnt, list, rfl, rfl, parseAnswers_count hloop (Nat.zero_le _)⟩
  · cases h
    exact Or.inr ⟨rfl, rfl⟩

/-! ## What the function returns -/

/-- The receive buffer, of 1024 bytes, with a message in it. -/
def Message.buffer (m : Message) : List UInt8 :=
  m.wire ++ List.replicate (1024 - m.wire.length) 0

/-- What is returned for a message are the entries of the rounds on its answers. -/
lemma Message.returns_buffer_iff {m : Message} (hsize : m.wire.length ≤ 1024)
    (hl : ∀ q ∈ m.questions, ∀ l ∈ q.labels, LabelOk l) {found : List DnsItem} :
    Returns m.buffer found ↔
      ∃ e, Rounds m.buffer m.answers.length (12 + m.questionSection.length) found e := by
  have hstarts : Starts m.buffer _ _ _ := m.starts hsize hl _
  constructor
  · intro h
    obtain ⟨querys, answers, start, e, hstarts', hrounds⟩ := returns_iff.1 h
    obtain ⟨rfl, rfl⟩ := hstarts.unique hstarts'
    exact ⟨e, hrounds⟩
  · rintro ⟨e, hrounds⟩
    exact hrounds.returns hstarts

/-- The list that is returned for a message whose names can be read. -/
lemma Message.returns_of_reads {m : Message} (hsize : m.wire.length ≤ 1024)
    (hl : ∀ q ∈ m.questions, ∀ l ∈ q.labels, LabelOk l) {texts : ℕ → List UInt8}
    (hok : ∀ p ∈ m.placed, RecordReads m.buffer texts p) :
    Returns m.buffer (m.placed.filterMap (entryOf texts)) := by
  exact (Message.returns_buffer_iff hsize hl).2 ⟨_, rounds_of_recordReads hok (m.hasAt_wire _).2.2⟩

lemma WellFormed.returns {m : Message} {names : ℕ → List (List UInt8)} (h : WellFormed m names) :
    Returns m.buffer (m.addresses names) := Message.returns_of_reads h.size h.labels (h.reads _)

/-- The offset of an answer. -/
def Message.position (m : Message) (i : ℕ) : ℕ :=
  12 + (m.questionSection.length + ((m.answers.take i).flatMap Record.wire).length)

lemma Message.position_eq (m : Message) (i : ℕ) : m.position i
    = 12 + m.questionSection.length + ((m.answers.take i).flatMap Record.wire).length := by
  rw [Message.position, Nat.add_assoc]

/-- The sections of a message in a buffer that begins with it, the answers in two parts. -/
lemma Message.hasAt_answers (m : Message) (i : ℕ) (pad : List UInt8) :
    HasAt (m.wire ++ pad) 12 (m.questionSection ++ (m.answers.take i).flatMap Record.wire) ∧
      HasAt (m.wire ++ pad) (m.position i) ((m.answers.drop i).flatMap Record.wire) := by
  obtain ⟨-, hq, ha⟩ := m.hasAt_wire pad
  have hsplit : m.answers.flatMap Record.wire = (m.answers.take i).flatMap Record.wire
      ++ (m.answers.drop i).flatMap Record.wire := by
    rw [← List.flatMap_append, List.take_append_drop]
  rw [hsplit, hasAt_append_iff, Nat.add_assoc] at ha
  exact ⟨hasAt_append_iff.2 ⟨hq, ha.1⟩, ha.2⟩

lemma agreeUpTo_of_hasAt {mid : List UInt8} (h : HasAt buf 12 mid) (h' : HasAt buf' 12 mid) :
    AgreeUpTo (12 + mid.length) buf buf' := by
  rw [hasAt_iff_getElem?] at h h'
  intro j hlo hhi
  obtain ⟨k, rfl⟩ := Nat.exists_eq_add_of_le hlo
  rw [h k (by omega), h' k (by omega)]

/-- Two messages with the same questions and the same answers up to the position. -/
lemma Message.agreeUpTo {m m' : Message} {i : ℕ} (hq : m'.questions = m.questions)
    (ha : m'.answers.take i = m.answers.take i) (pad pad' : List UInt8) :
    AgreeUpTo (m.position i) (m.wire ++ pad) (m'.wire ++ pad') := by
  have h := (m.hasAt_answers i pad).1
  have h' := (m'.hasAt_answers i pad').1
  rw [Message.questionSection, hq, ha] at h'
  have hagree := agreeUpTo_of_hasAt h h'
  rw [List.length_append] at hagree
  exact hagree

lemma agreeUpTo_buffer (m : Message) (i : ℕ) : AgreeUpTo (m.position i) m.wire m.buffer := by
  have h := @Message.agreeUpTo m m i rfl rfl [] (List.replicate (1024 - m.wire.length) 0)
  rw [List.append_nil] at h
  exact h

/-- The two parts of the answer section in the receive buffer. -/
lemma hasAt_buffer (m : Message) (i : ℕ) :
    HasAt m.buffer (12 + m.questionSection.length) ((m.answers.take i).flatMap Record.wire) ∧
      HasAt m.buffer (m.position i) ((m.answers.drop i).flatMap Record.wire) := by
  obtain ⟨hfront, hrest⟩ := m.hasAt_answers i (List.replicate (1024 - m.wire.length) 0)
  exact ⟨(hasAt_append_iff.1 hfront).2, hrest⟩

/-! ## The names of a sample message -/

/-- A field that is a pointer. -/
lemma NameField.names_pointer {lo : UInt8} {ls : List (List UInt8)} (ha : allowed lo.toNat)
    (h : NameIn msg limit allowed lo.toNat ls) :
    NameField.Names ⟨[], some lo⟩ msg limit allowed ls := by
  refine ⟨fun l hl => ?_, fun hnone => ?_, fun lo' hlo => ?_⟩
  · cases hl
  · cases hnone
  · obtain rfl := Option.some.inj hlo
    exact ⟨ha, ls, h, rfl⟩

lemma nameIn_sample : NameIn sampleMessage.wire 35 allowed 12 [[97]] :=
  .label (by decide) (by unfold LabelOk; decide) (by unfold HasAt; decide)
    (.root (by decide) (by decide) (by decide))

lemma nameIn_sample_target (h12 : allowed 12) :
    NameIn sampleMessage.wire 35 allowed 31 [[98], [97]] :=
  .label (by decide) (by unfold LabelOk; decide) (by unfold HasAt; decide)
    (@NameIn.pointer _ _ _ 33 12 _ (by decide) (by decide) (by unfold HasAt; decide) (by decide)
      h12 nameIn_sample)

/-- The two answers of `sampleMessage`, when pointers to offsets 12 and 31 are allowed. -/
lemma answerIn_sample (h12 : allowed 12) (h31 : allowed 31) :
    ∀ a ∈ sampleMessage.answers, a.ownerField.length = 2 ∧
      AnswerIn sampleMessage.wire 35 allowed a := by
  intro a ha
  have hmem : a = sampleMessage.answers[0] ∨ a = sampleMessage.answers[1] := by
    simpa [sampleMessage] using ha
  rcases hmem with rfl | rfl
  · refine ⟨rfl, Or.inr rfl, ⟨⟨[], some 12⟩, [[97]], rfl, ?_, by decide⟩,
      fun _ => ⟨⟨[[98]], some 12⟩, [[98], [97]], by decide, ⟨?_, by simp, ?_⟩, by decide⟩⟩
    · exact NameField.names_pointer h12 nameIn_sample
    · unfold LabelOk
      decide
    · intro lo hlo
      cases hlo
      exact ⟨h12, [[97]], nameIn_sample, rfl⟩
  · refine ⟨rfl, Or.inl rfl, ⟨⟨[], some 31⟩, [[98], [97]], rfl, ?_, by decide⟩,
      fun ht => absurd ht (by decide)⟩
    exact NameField.names_pointer h31 (nameIn_sample_target h12)

end CppExample.Dns
