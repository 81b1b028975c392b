/-
# How an owner name is written

The answer loop decodes the owner name of a record whatever its encoding is, and then steps
over two bytes, the size of a pointer.  As long as all owner fields are pointers, one of them
may be replaced by another pointer to the same name: the same list is returned.  Of an
address in the last answer, an encoding of another size makes the loop read other bytes than
the address: `returns_setOwner`.
-/
import CppExample.Dns.Fields

namespace CppExample.Dns
open Lib

/-- There is no zero byte at the offset. -/
def NotRoot (msg : List UInt8) (target : ℕ) : Prop := msg[target]? ≠ some 0

/-- The message with another record for answer `i`. -/
def Message.setAnswer (m : Message) (i : ℕ) (r : Record) : Message :=
  { m with answers := m.answers.take i ++ r :: m.answers.drop (i + 1) }

/-- The record with another owner field. -/
def Record.setOwner (r : Record) (ownerField : List UInt8) : Record :=
  { r with ownerField := ownerField }

/-- The record with another address. -/
def Record.setAddress (r : Record) (rdata : List UInt8) (h : rdata.length = 4) : Record :=
  { r with rdata := rdata, rdata_lt := by omega }

/-- A message of uncompressed questions and of answers with names of at most 127 bytes, no
pointer to a zero byte, and another encoding of the owner of answer `i`, where all pointer
targets are in front of this answer. -/
structure ReplacementOk (m : Message) (i : ℕ) (r : Record) (ownerField : List UInt8) : Prop where
  answer : m.answers[i]? = some r
  size : m.wire.length ≤ 1024
  size_setOwner : (m.setAnswer i (r.setOwner ownerField)).wire.length ≤ 1024
  labels : ∀ q ∈ m.questions, ∀ l ∈ q.labels, LabelOk l
  answers : ∀ a ∈ m.answers, AnswerIn m.wire (m.position i) (NotRoot m.wire) a
  owner : ∃ (f f' : NameField) (ls : List (List UInt8)), r.ownerField = f.bytes ∧
    ownerField = f'.bytes ∧ f.Names m.wire (m.position i) (NotRoot m.wire) ls ∧
    f'.Names m.wire (m.position i) (NotRoot m.wire) ls ∧ (dotted ls).length ≤ 127

variable {m : Message} {i : ℕ} {r : Record} {ownerField : List UInt8} {msg buf : List UInt8}
  {limit : ℕ}

/-! ## Decoding the names -/

lemma NameIn.spelled {off : ℕ} {ls : List (List UInt8)} (h : NameIn msg limit (NotRoot msg) off ls)
    (hb : AgreeUpTo limit msg buf) : Spelled buf off ls := by
  induction h with
  | root hlo hhi h => exact .root (hb _ hlo hhi ▸ h)
  | @label off l ls hlo hl h rest ih =>
    have hend := rest.lt_limit.2
    refine .label hl (hb.hasAt h hlo ?_) ih
    rw [length_encodeLabel]
    omega
  | pointer hlo hhi h hlt ha rest ih =>
    obtain ⟨hlo', hhi'⟩ := rest.lt_limit
    refine .pointer (hb.hasAt h hlo hhi) (by decide) ?_ ih
    rw [← hb _ hlo' hhi']
    exact ha

lemma NameField.Names.spelled {f : NameField} {ls : List (List UInt8)}
    (h : f.Names msg limit (NotRoot msg) ls) (hb : AgreeUpTo limit msg buf) {off : ℕ}
    (hf : HasAt buf off f.bytes) : Spelled buf off ls := by
  obtain ⟨labels, tail⟩ := f
  obtain ⟨hl, hroot, hpointer⟩ := h
  simp only [NameField.bytes] at hf hl hroot hpointer
  -- the name behind the labels of the field
  obtain ⟨ls', hls, htail⟩ : ∃ ls', ls = labels ++ ls' ∧
      ∀ off, HasAt buf off (NameField.tail ⟨labels, tail⟩) → Spelled buf off ls' := by
    cases tail with
    | none => exact ⟨[], by rw [hroot rfl, List.append_nil], fun off hf => .root hf.getElem?⟩
    | some lo =>
      obtain ⟨h0, ls', hin, hls⟩ := hpointer lo rfl
      obtain ⟨hlo, hhi⟩ := hin.lt_limit
      refine ⟨ls', hls, fun off hf => .pointer hf (by decide) ?_ (hin.spelled hb)⟩
      rw [← hb _ hlo hhi]
      exact h0
  subst hls
  clear hroot hpointer
  generalize NameField.tail ⟨labels, tail⟩ = fin at hf htail
  induction labels generalizing off with
  | nil => exact htail off hf
  | cons l labels ih =>
    rw [List.flatMap_cons, List.append_assoc, hasAt_append_iff, length_encodeLabel] at hf
    exact .label (hl l (by simp)) hf.1 (ih (fun l' hl' => hl l' (by simp [hl'])) hf.2)

/-- There is a round on an answer. -/
lemma AnswerIn.exists_round {off : ℕ} (h : AnswerIn msg limit (NotRoot msg) r)
    (howner : r.ownerField.length = 2) (hb : AgreeUpTo limit msg buf) (hw : HasAt buf off r.wire) :
    ∃ o, Round buf off (off + r.wire.length) o := by
  obtain ⟨hown, hdata⟩ := r.hasAt_fields howner hw
  obtain ⟨htype, hlen⟩ := r.hasAt_type_length howner hw
  obtain ⟨f, ls, hf, hnames, hle⟩ := h.owner
  rw [hf] at hown
  have hspells := (hnames.spelled hb hown).spells
  have hr := h.expected howner
  rcases hr.cases with hcname | ⟨hhost, hne⟩ | ⟨hhost, h4⟩
  · obtain ⟨g, ls', hg, hnames', hle'⟩ := h.cname hcname
    rw [hg] at hdata
    exact ⟨none, (round_cname_iff hr htype hlen hcname).2 ⟨rfl, rfl, ⟨_, hspells, by omega⟩,
      _, (hnames'.spelled hb hdata).spells, by omega⟩⟩
  · exact ⟨none, (round_otherLength_iff hr htype hlen hhost hne).2
      ⟨rfl, rfl, _, hspells, by omega⟩⟩
  · exact ⟨_, (round_address_iff hr htype hlen hhost h4).2
      ⟨rfl, _, hspells, by omega, Or.inl (by omega), _, h4, hdata, rfl⟩⟩

lemma exists_rounds {rs : List Record} (hb : AgreeUpTo limit msg buf)
    (hrs : ∀ a ∈ rs, a.ownerField.length = 2 ∧ AnswerIn msg limit (NotRoot msg) a) {off : ℕ}
    (h : HasAt buf off (rs.flatMap Record.wire)) : ∃ found e, Rounds buf rs.length off found e := by
  induction rs generalizing off with
  | nil => exact ⟨[], off, .zero off⟩
  | cons r rs ih =>
    rw [List.flatMap_cons, hasAt_append_iff] at h
    obtain ⟨howner, hr⟩ := hrs r (by simp)
    obtain ⟨o, hround⟩ := hr.exists_round howner hb h.1
    obtain ⟨found, e, hrest⟩ := ih (fun a ha => hrs a (by simp [ha])) h.2
    exact ⟨_, e, .succ hround hrest⟩

/-- A list is returned for a message whose owner fields are pointers. -/
lemma exists_returns (hsize : m.wire.length ≤ 1024)
    (hl : ∀ q ∈ m.questions, ∀ l ∈ q.labels, LabelOk l)
    (hb : AgreeUpTo limit msg m.buffer)
    (hanswers : ∀ a ∈ m.answers, a.ownerField.length = 2 ∧ AnswerIn msg limit (NotRoot msg) a) :
    ∃ found, Returns m.buffer found := by
  obtain ⟨found, e, hrounds⟩ := exists_rounds hb hanswers (m.hasAt_wire _).2.2
  exact ⟨found, (Message.returns_buffer_iff hsize hl).2 ⟨e, hrounds⟩⟩

/-! ## The message with another answer -/

lemma take_setAnswer (hi : i < m.answers.length) :
    (m.setAnswer i r).answers.take i = m.answers.take i := by
  simp [Message.setAnswer, hi.le]

lemma drop_setAnswer (hi : i < m.answers.length) :
    (m.setAnswer i r).answers.drop i = r :: m.answers.drop (i + 1) := by
  simp [Message.setAnswer, hi.le]

lemma position_setAnswer (hi : i < m.answers.length) :
    (m.setAnswer i r).position i = m.position i := by
  rw [Message.position, take_setAnswer hi]
  rfl

lemma length_setAnswer (hi : i < m.answers.length) :
    (m.setAnswer i r).answers.length = m.answers.length := by
  simp [Message.setAnswer]
  omega

lemma agreeUpTo_setAnswer (hi : i < m.answers.length) :
    AgreeUpTo (m.position i) m.wire (m.setAnswer i r).buffer := by
  have hagree := @Message.agreeUpTo m (m.setAnswer i r) i rfl (take_setAnswer hi) []
    (List.replicate (1024 - (m.setAnswer i r).wire.length) 0)
  rw [List.append_nil] at hagree
  exact hagree

lemma hasAt_setAnswer (hi : i < m.answers.length) :
    HasAt (m.setAnswer i r).buffer (12 + m.questionSection.length)
        ((m.answers.take i).flatMap Record.wire) ∧
      HasAt (m.setAnswer i r).buffer (m.position i) r.wire ∧
      HasAt (m.setAnswer i r).buffer (m.position i + r.wire.length)
        ((m.answers.drop (i + 1)).flatMap Record.wire) := by
  have hbuf := hasAt_buffer (m.setAnswer i r) i
  rw [take_setAnswer hi, drop_setAnswer hi, position_setAnswer hi, List.flatMap_cons,
    hasAt_append_iff] at hbuf
  exact hbuf

/-- A message is the message with its own answer. -/
lemma setAnswer_self (h : m.answers[i]? = some r) : m.setAnswer i r = m := by
  obtain ⟨hi, rfl⟩ := List.getElem?_eq_some_iff.1 h
  rw [Message.setAnswer, ← List.drop_eq_getElem_cons hi, List.take_append_drop]

/-- What is returned for the message with another record for answer `i`: the entries of the rounds
up to this answer, on it and past it. -/
lemma returns_setAnswer_iff
    (hsize : (m.setAnswer i r).wire.length ≤ 1024)
    (hl : ∀ q ∈ m.questions, ∀ l ∈ q.labels, LabelOk l) {found : List DnsItem} :
    Returns (m.setAnswer i r).buffer found ↔ ∃ f o g q q' e,
      Rounds (m.setAnswer i r).buffer (m.answers.take i).length
        (12 + m.questionSection.length) f q ∧
      Round (m.setAnswer i r).buffer q q' o ∧
      Rounds (m.setAnswer i r).buffer (m.answers.drop (i + 1)).length q' g e ∧
      found = f ++ (o.toList ++ g) := by
  have hcount : (m.setAnswer i r).answers.length
      = (m.answers.take i).length + ((m.answers.drop (i + 1)).length + 1) := by
    simp [Message.setAnswer]
  rw [Message.returns_buffer_iff hsize hl, hcount]
  constructor
  · rintro ⟨e, hrounds⟩
    obtain ⟨q, f, rest, hf, hrest, rfl⟩ := rounds_add_iff.1 hrounds
    obtain ⟨q', o, g, ho, hg, rfl⟩ := rounds_succ_iff.1 hrest
    exact ⟨f, o, g, q, q', e, hf, ho, hg, rfl⟩
  · rintro ⟨f, o, g, q, q', e, hf, ho, hg, rfl⟩
    exact ⟨e, rounds_add_iff.2 ⟨q, f, _, hf, .succ ho hg, rfl⟩⟩

/-- The answers in front of answer `i` are read alike, whatever that answer is. -/
lemma ReplacementOk.front (h : ReplacementOk m i r ownerField)
    (htwo : ∀ a ∈ m.answers, a.ownerField.length = 2) (hi : i < m.answers.length)
    {r₁ r₂ : Record} {f : List DnsItem} {q : ℕ}
    (hf : Rounds (m.setAnswer i r₁).buffer (m.answers.take i).length
      (12 + m.questionSection.length) f q) :
    q = m.position i ∧ Rounds (m.setAnswer i r₂).buffer (m.answers.take i).length
      (12 + m.questionSection.length) f (m.position i) := by
  have hrs : ∀ a ∈ m.answers.take i, a.ownerField.length = 2 ∧
      AnswerIn m.wire (m.position i) (NotRoot m.wire) a :=
    fun a ha => ⟨htwo a (List.mem_of_mem_take ha), h.answers a (List.mem_of_mem_take ha)⟩
  rw [m.position_eq]
  exact hf.same (@agreeUpTo_setAnswer m i r₁ hi) (@agreeUpTo_setAnswer m i r₂ hi) hrs
    (hasAt_setAnswer hi).1 (hasAt_setAnswer hi).1

/-- Replacing a pointer by another pointer to the same name changes nothing. -/
lemma ReplacementOk.returns (h : ReplacementOk m i r ownerField)
    (htwo : ∀ a ∈ m.answers, a.ownerField.length = 2) (h2 : ownerField.length = 2)
    {found : List DnsItem} (hret : Returns m.buffer found) :
    Returns (m.setAnswer i (r.setOwner ownerField)).buffer found := by
  obtain ⟨hi, hr⟩ := List.getElem?_eq_some_iff.1 h.answer
  have hself := setAnswer_self h.answer
  have hmem : r ∈ m.answers := hr ▸ List.getElem_mem hi
  have hanswer := h.answers r hmem
  have htwo' : (r.setOwner ownerField).ownerField.length = 2 := h2
  obtain ⟨f, f', ls, hf, hf', hnames, hnames', -⟩ := h.owner
  have hb := @agreeUpTo_setAnswer m i r hi
  have hb' := @agreeUpTo_setAnswer m i (r.setOwner ownerField) hi
  obtain ⟨-, hwire, hback⟩ := @hasAt_setAnswer m i r hi
  obtain ⟨-, hwire', hback'⟩ := @hasAt_setAnswer m i (r.setOwner ownerField) hi
  -- the two fields spell the same name
  have hown := (r.hasAt_fields (htwo r hmem) hwire).1
  have hown' := (Record.hasAt_fields htwo' hwire').1
  rw [hf] at hown
  rw [show (r.setOwner ownerField).ownerField = f'.bytes from hf'] at hown'
  have hspells := (hnames.spelled hb hown).spells
  have hspells' := (hnames'.spelled hb' hown').spells
  have hlen : (r.setOwner ownerField).wire.length = r.wire.length := by
    rw [Record.length_wire (htwo r hmem), Record.length_wire htwo']
    rfl
  rw [← hself] at hret
  obtain ⟨front, o, g, q, q', e, hfront, ho, hg, rfl⟩ :=
    (returns_setAnswer_iff (hself.symm ▸ h.size) h.labels).1 hret
  obtain ⟨rfl, hfront'⟩ := @ReplacementOk.front _ _ _ _ h htwo hi r (r.setOwner ownerField) _ _
    hfront
  obtain ⟨rfl, ho'⟩ := ho.same (hanswer.expected (htwo r hmem)) htwo' rfl rfl hwire hwire'
    (fun text hs => hs.unique hspells ▸ hspells')
    fun ht text => (hanswer.target_iff (htwo r hmem) htwo' rfl hb hb' hwire hwire' ht text).1
  rw [hlen] at hback' ho'
  have hrs : ∀ a ∈ m.answers.drop (i + 1), a.ownerField.length = 2 ∧
      AnswerIn m.wire (m.position i) (NotRoot m.wire) a :=
    fun a ha => ⟨htwo a (List.mem_of_mem_drop ha), h.answers a (List.mem_of_mem_drop ha)⟩
  obtain ⟨-, hg'⟩ := hg.same hb hb' hrs hback hback'
  exact (returns_setAnswer_iff h.size_setOwner h.labels).2
    ⟨front, o, g, _, _, _, hfront', ho', hg', rfl⟩

/-! ## An owner field of another size -/

/-- The address that a round adds stands behind the twelve bytes. -/
lemma Round.exists_address {p q : ℕ} {domain : Option (List UInt8)} {ip : List UInt8}
    (h : Round buf p q (some ⟨domain, some ip⟩)) :
    ∃ netip, netip.length = 4 ∧ HasAt buf (p + 12) netip ∧ ip = dottedQuad netip := by
  cases h with
  | address head hdata h4 hnul => exact ⟨_, h4, hdata, rfl⟩

/-- If the same list is returned when the owner field of an address in the last answer is
written in another way, then this address stands where it would be behind a pointer. -/
lemma ReplacementOk.last_address (h : ReplacementOk m i r ownerField)
    (htwo : ∀ a ∈ m.answers, a.ownerField.length = 2) (hlast : i + 1 = m.answers.length)
    (htype : r.type = dnsHost) (h4 : r.rdata.length = 4) {found : List DnsItem}
    (hret : Returns m.buffer found)
    (hret' : Returns (m.setAnswer i (r.setOwner ownerField)).buffer found) :
    HasAt (m.setAnswer i (r.setOwner ownerField)).buffer (m.position i + 12) r.rdata := by
  obtain ⟨hi, hr⟩ := List.getElem?_eq_some_iff.1 h.answer
  have hself := setAnswer_self h.answer
  have hmem : r ∈ m.answers := hr ▸ List.getElem_mem hi
  have hnil : m.answers.drop (i + 1) = [] := by
    rw [hlast, List.drop_length]
  rw [← hself] at hret
  obtain ⟨f, o, g, q, q₁, e, hf, ho, hg, rfl⟩ :=
    (returns_setAnswer_iff (hself.symm ▸ h.size) h.labels).1 hret
  obtain ⟨f', o', g', q', q₁', e', hf', ho', hg', heq⟩ :=
    (returns_setAnswer_iff h.size_setOwner h.labels).1 hret'
  obtain ⟨rfl, hsame⟩ := @ReplacementOk.front _ _ _ _ h htwo hi r (r.setOwner ownerField) _ _ hf
  obtain ⟨rfl, rfl⟩ := hsame.unique hf'
  rw [hnil] at hg hg'
  cases hg
  cases hg'
  rw [List.append_nil, List.append_nil, List.append_cancel_left_eq] at heq
  -- the round on the answer itself adds the address
  obtain ⟨-, hwire, -⟩ := @hasAt_setAnswer m i r hi
  obtain ⟨htype', hlen⟩ := r.hasAt_type_length (htwo r hmem) hwire
  obtain ⟨-, text, -, -, -, netip, hnetip, hdata, rfl⟩ :=
    (round_address_iff ((h.answers r hmem).expected (htwo r hmem)) htype' hlen htype h4).1 ho
  obtain rfl := Option.toList_eq_singleton_iff.1 heq.symm
  obtain ⟨netip', hnetip', hdata', hquad⟩ := ho'.exists_address
  obtain rfl := dottedQuad_inj (List.ne_nil_of_length_pos (by omega))
    (List.ne_nil_of_length_pos (by omega)) hquad
  rwa [← hdata.unique (r.hasAt_rdata (htwo r hmem) hwire) (hnetip.trans h4.symm)]

/-! ### The byte that is taken for the first one of the address -/

/-- The bytes in front of the address do not depend on it. -/
lemma getElem?_setAddress (hi : i < m.answers.length) (hlen : 2 < ownerField.length) :
    ∃ b, ∀ (rdata : List UInt8) (h4 : rdata.length = 4),
      (m.setAnswer i ((r.setAddress rdata h4).setOwner ownerField)).buffer[m.position i + 12]?
        = some b := by
  have hlt : ∀ (rdata : List UInt8) (h4 : rdata.length = 4),
      12 < (ownerField ++ (r.setAddress rdata h4).fixed).length := by
    intro rdata h4
    rw [List.length_append, length_fixed]
    omega
  have hfixed : ∀ (rdata : List UInt8) (h4 : rdata.length = 4),
      (r.setAddress rdata h4).fixed = (r.setAddress [0, 0, 0, 0] rfl).fixed := by
    intro rdata h4
    simp only [Record.fixed, Record.setAddress, h4]
    rfl
  refine ⟨(ownerField ++ (r.setAddress [0, 0, 0, 0] rfl).fixed).get ⟨12, hlt _ _⟩,
    fun rdata h4 => ?_⟩
  obtain ⟨-, hwire, -⟩ :=
    @hasAt_setAnswer m i ((r.setAddress rdata h4).setOwner ownerField) hi
  rw [Record.wire, ← List.append_assoc, hasAt_append_iff, hasAt_iff_getElem?] at hwire
  rw [hwire.1 12 (hlt rdata h4)]
  show (ownerField ++ (r.setAddress rdata h4).fixed)[12]? = _
  rw [hfixed, List.getElem?_eq_getElem (hlt _ _)]
  rfl

/-! ### Another address -/

lemma NameIn.transport {msg' : List UInt8} {off : ℕ} {ls : List (List UInt8)}
    (h : NameIn msg limit (NotRoot msg) off ls) (hb : AgreeUpTo limit msg msg') :
    NameIn msg' limit (NotRoot msg') off ls := by
  induction h with
  | root hlo hhi h => exact .root hlo hhi (hb _ hlo hhi ▸ h)
  | @label off l ls hlo hl h rest ih =>
    have hend := rest.lt_limit.2
    refine .label hlo hl (hb.hasAt h hlo ?_) ih
    rw [length_encodeLabel]
    omega
  | pointer hlo hhi h hlt ha rest ih =>
    obtain ⟨hlo', hhi'⟩ := rest.lt_limit
    refine .pointer hlo hhi (hb.hasAt h hlo hhi) hlt ?_ ih
    rw [NotRoot, ← hb _ hlo' hhi']
    exact ha

lemma NameField.Names.transport {msg' : List UInt8} {f : NameField} {ls : List (List UInt8)}
    (h : f.Names msg limit (NotRoot msg) ls) (hb : AgreeUpTo limit msg msg') :
    f.Names msg' limit (NotRoot msg') ls := by
  refine ⟨h.labels, h.root, fun lo hlo => ?_⟩
  obtain ⟨ha, ls', hin, hls⟩ := h.pointer lo hlo
  obtain ⟨hlo', hhi'⟩ := hin.lt_limit
  refine ⟨?_, ls', hin.transport hb, hls⟩
  rw [NotRoot, ← hb _ hlo' hhi']
  exact ha

lemma AnswerIn.transport {msg' : List UInt8} (h : AnswerIn msg limit (NotRoot msg) r)
    (hb : AgreeUpTo limit msg msg') : AnswerIn msg' limit (NotRoot msg') r := by
  refine ⟨h.type, ?_, fun ht => ?_⟩
  · obtain ⟨f, ls, hf, hnames, hle⟩ := h.owner
    exact ⟨f, ls, hf, hnames.transport hb, hle⟩
  · obtain ⟨f, ls, hf, hnames, hle⟩ := h.cname ht
    exact ⟨f, ls, hf, hnames.transport hb, hle⟩

lemma setAnswer_setAnswer {r' : Record} (hi : i < m.answers.length) :
    (m.setAnswer i r).setAnswer i r' = m.setAnswer i r' := by
  have htake := @take_setAnswer m i r hi
  have hdrop : (m.setAnswer i r).answers.drop (i + 1) = m.answers.drop (i + 1) := by
    rw [← List.tail_drop, drop_setAnswer hi]
    rfl
  rw [Message.setAnswer, htake, hdrop]
  rfl

/-- The answers of the new message: those of the message, and the new one. -/
lemma mem_setAnswer {a : Record} (h : a ∈ (m.setAnswer i r).answers) : a ∈ m.answers ∨ a = r := by
  rw [Message.setAnswer, List.mem_append, List.mem_cons] at h
  rcases h with h | rfl | h
  · exact Or.inl (List.mem_of_mem_take h)
  · exact Or.inr rfl
  · exact Or.inl (List.mem_of_mem_drop h)

lemma length_wire_setAnswer {r' : Record} (h : r'.wire.length = r.wire.length) :
    (m.setAnswer i r').wire.length = (m.setAnswer i r).wire.length := by
  have hq : ∀ r, (m.setAnswer i r).questionSection = m.questionSection := fun _ => rfl
  have ha : ∀ r, (m.setAnswer i r).answers = m.answers.take i ++ r :: m.answers.drop (i + 1) :=
    fun _ => rfl
  simp only [Message.wire, hq, ha, List.flatMap_append, List.flatMap_cons, List.length_append,
    length_header, h]

/-- The conditions do not depend on the address. -/
lemma ReplacementOk.setAddress (h : ReplacementOk m i r ownerField) (htype : r.type = dnsHost)
    (h4 : r.rdata.length = 4) {rdata : List UInt8} (hr : rdata.length = 4) :
    ReplacementOk (m.setAnswer i (r.setAddress rdata hr)) i (r.setAddress rdata hr) ownerField := by
  obtain ⟨hi, hmem⟩ := List.getElem?_eq_some_iff.1 h.answer
  have hmem : r ∈ m.answers := hmem ▸ List.getElem_mem hi
  have hb : AgreeUpTo (m.position i) m.wire (m.setAnswer i (r.setAddress rdata hr)).wire := by
    have hagree := @Message.agreeUpTo m (m.setAnswer i (r.setAddress rdata hr)) i rfl
      (take_setAnswer hi) [] []
    rw [List.append_nil, List.append_nil] at hagree
    exact hagree
  have hlen : (r.setAddress rdata hr).wire.length = r.wire.length := by
    simp only [Record.setAddress, Record.wire, List.length_append, length_fixed, hr, h4]
  have hlen' : ((r.setAddress rdata hr).setOwner ownerField).wire.length
      = (r.setOwner ownerField).wire.length := by
    simp only [Record.setOwner, Record.setAddress, Record.wire, List.length_append, length_fixed,
      hr, h4]
  refine ⟨?_, ?_, ?_, h.labels, fun a ha => ?_, ?_⟩
  · have hdrop := @drop_setAnswer m i (r.setAddress rdata hr) hi
    rw [← List.head?_drop, hdrop]
    rfl
  · rw [length_wire_setAnswer hlen, setAnswer_self h.answer]
    exact h.size
  · rw [setAnswer_setAnswer hi, length_wire_setAnswer hlen']
    exact h.size_setOwner
  · rw [position_setAnswer hi]
    refine AnswerIn.transport ?_ hb
    rcases mem_setAnswer ha with ha | rfl
    · exact h.answers a ha
    · refine ⟨Or.inl htype, (h.answers r hmem).owner, fun ht => ?_⟩
      exact absurd (htype.symm.trans ht) (by decide)
  · rw [position_setAnswer hi]
    obtain ⟨f, f', ls, hf, hf', hnames, hnames', hle⟩ := h.owner
    exact ⟨f, f', ls, hf, hf', hnames.transport hb, hnames'.transport hb, hle⟩

/-! ## When the list is unchanged -/

/-- Without pointers to zero bytes, no pointer leads to the root name. -/
lemma NameIn.ne_nil {off : ℕ} {ls : List (List UInt8)} (h : NameIn msg limit (NotRoot msg) off ls)
    (hoff : NotRoot msg off) : ls ≠ [] := by
  induction h with
  | root hlo hhi h => exact absurd h hoff
  | label hlo hl h rest ih => exact List.cons_ne_nil _ _
  | pointer hlo hhi h hlt ha rest ih => exact ih ha

/-- A field of two bytes is a pointer, and one that has the same name is not shorter. -/
lemma ReplacementOk.two_le (h : ReplacementOk m i r ownerField) (htwo : r.ownerField.length = 2) :
    2 ≤ ownerField.length := by
  obtain ⟨f, f', ls, hf, hf', hnames, hnames', -⟩ := h.owner
  by_contra hlt
  -- the new field is the zero byte, and the name is the root
  have hnil : ls = [] := by
    obtain ⟨labels, tail⟩ := f'
    rw [hf', NameField.bytes] at hlt
    cases tail with
    | none =>
      rw [hnames'.root rfl]
      cases labels with
      | nil => rfl
      | cons l labels =>
        simp only [NameField.tail, List.flatMap_cons, List.length_append, length_encodeLabel,
          List.length_singleton] at hlt
        omega
    | some lo => simp [NameField.tail] at hlt
  obtain ⟨labels, tail⟩ := f
  rw [hf, NameField.bytes] at htwo
  cases tail with
  | none =>
    have hlabels := hnames.root rfl
    rw [hnil] at hlabels
    rw [← hlabels] at htwo
    simp [NameField.tail] at htwo
  | some lo =>
    obtain ⟨ha, ls', hin, hls⟩ := hnames.pointer lo rfl
    rw [hnil] at hls
    exact hin.ne_nil ha (List.append_eq_nil_iff.1 hls.symm).2

/-- **When the way an owner name is written does not matter.**  If all owner fields of the
message take two bytes, then replacing one of them by another field of two bytes for the same
name leaves the list unchanged.  For an address in the last answer, this is also necessary if
it is to hold for all addresses. -/
theorem returns_setOwner (h : ReplacementOk m i r ownerField)
    (htwo : ∀ a ∈ m.answers, a.ownerField.length = 2) :
    (ownerField.length = 2 → ∃ found, Returns m.buffer found ∧
      Returns (m.setAnswer i (r.setOwner ownerField)).buffer found) ∧
    (i + 1 = m.answers.length → r.type = dnsHost → r.rdata.length = 4 →
      (∀ (rdata : List UInt8) (h4 : rdata.length = 4), ∃ found,
        Returns (m.setAnswer i (r.setAddress rdata h4)).buffer found ∧
        Returns (m.setAnswer i ((r.setAddress rdata h4).setOwner ownerField)).buffer found) →
      ownerField.length = 2) := by
  obtain ⟨hi, hr⟩ := List.getElem?_eq_some_iff.1 h.answer
  have hmem : r ∈ m.answers := hr ▸ List.getElem_mem hi
  constructor
  · intro h2
    obtain ⟨found, hfound⟩ := exists_returns h.size h.labels (agreeUpTo_buffer m i)
      (fun a ha => ⟨htwo a ha, h.answers a ha⟩)
    exact ⟨found, hfound, h.returns htwo h2 hfound⟩
  · intro hlast htype h4 hall
    by_contra hne
    have hlen : 2 < ownerField.length := by
      have hle := h.two_le (htwo r hmem)
      omega
    obtain ⟨b, hb⟩ := @getElem?_setAddress m i r ownerField hi hlen
    -- an address that does not begin with the byte that is read in its place
    obtain ⟨x, hxb⟩ : ∃ x : UInt8, b ≠ x := by
      by_cases hb1 : b = 1
      · exact ⟨2, by rw [hb1]; decide⟩
      · exact ⟨1, hb1⟩
    have h4' : [x, 0, 0, 0].length = 4 := rfl
    obtain ⟨found, hret, hret'⟩ := hall [x, 0, 0, 0] h4'
    have htwo' : ∀ a ∈ (m.setAnswer i (r.setAddress [x, 0, 0, 0] h4')).answers,
        a.ownerField.length = 2 := by
      intro a ha
      rcases mem_setAnswer ha with ha | rfl
      · exact htwo a ha
      · exact htwo r hmem
    have hok := h.setAddress htype h4 h4'
    rw [← @setAnswer_setAnswer m i (r.setAddress [x, 0, 0, 0] h4') _ hi] at hret'
    have haddress := hok.last_address htwo' (by rw [length_setAnswer hi]; exact hlast) htype h4'
      hret hret'
    rw [setAnswer_setAnswer hi, position_setAnswer hi] at haddress
    have hfirst : _ = some x := haddress.getElem?
    rw [hb] at hfirst
    exact hxb (Option.some.inj hfirst)

/-! ## The two ways in a sample message -/

lemma notRoot_sample : NotRoot sampleMessage.wire 12 ∧ NotRoot sampleMessage.wire 31 := by
  unfold NotRoot
  decide

/-- The address of `sampleMessage`, with another encoding of the owner `b.a`. -/
lemma replacementOk_sample {f : NameField} {r : Record}
    (hr : sampleMessage.answers[1]? = some r)
    (hsize : (sampleMessage.setAnswer 1 (r.setOwner f.bytes)).wire.length ≤ 1024)
    (hf : f.Names sampleMessage.wire 35 (NotRoot sampleMessage.wire) [[98], [97]]) :
    ReplacementOk sampleMessage 1 r f.bytes := by
  obtain ⟨h12, h31⟩ := notRoot_sample
  have hpos : sampleMessage.position 1 = 35 := by decide
  obtain rfl : r = sampleMessage.answers[1] := (Option.some.inj hr).symm
  refine ⟨hr, by decide, hsize, by unfold LabelOk; decide, fun a ha => ?_, ?_⟩
  · rw [hpos]
    exact (answerIn_sample h12 h31 a ha).2
  · rw [hpos]
    exact ⟨⟨[], some 31⟩, f, [[98], [97]], rfl, rfl,
      NameField.names_pointer h31 (nameIn_sample_target h12), hf, by decide⟩

/-- The owner of the address, as a label and a pointer. -/
def labelAndPointer : NameField := ⟨[[98]], some 12⟩

/-- With a label in front of the pointer, the address is not found. -/
theorem lostAddress :
    ReplacementOk sampleMessage 1 sampleMessage.answers[1] labelAndPointer.bytes ∧
    Returns sampleMessage.buffer
      [⟨some [98, 46, 97], some [49, 48, 46, 48, 46, 48, 46, 55]⟩] ∧
    ¬ Returns (sampleMessage.setAnswer 1
        (sampleMessage.answers[1].setOwner labelAndPointer.bytes)).buffer
      [⟨some [98, 46, 97], some [49, 48, 46, 48, 46, 48, 46, 55]⟩] := by
  have hnames : labelAndPointer.Names sampleMessage.wire 35 (NotRoot sampleMessage.wire)
      [[98], [97]] := by
    refine ⟨by unfold LabelOk; decide, fun h => absurd h (by decide), fun lo hlo => ?_⟩
    obtain rfl := Option.some.inj hlo
    exact ⟨notRoot_sample.1, [[97]], nameIn_sample, rfl⟩
  have hok := @replacementOk_sample labelAndPointer sampleMessage.answers[1] rfl (by decide) hnames
  have hret := sampleMessage_wellFormed.returns
  refine ⟨hok, hret, fun hret' => ?_⟩
  have haddress := hok.last_address (by decide) (by decide) rfl rfl hret hret'
  -- the length field and the first half of the address
  have hwire := (@hasAt_setAnswer sampleMessage 1
    (sampleMessage.answers[1].setOwner labelAndPointer.bytes) (by decide)).2.1
  rw [show (sampleMessage.answers[1].setOwner labelAndPointer.bytes).wire
    = [1, 98, 0xC0, 12, 0, 1, 0, 1, 0, 0, 0, 60] ++ ([0, 4, 10, 0] ++ [0, 7]) by decide,
    hasAt_append_iff, hasAt_append_iff] at hwire
  exact absurd (haddress.unique hwire.2.1 rfl) (by decide)

/-- A message in which the name `a` is asked for twice, with an address of it. -/
def askedTwice : Message where
  id := 7
  flags := 0x8180
  nscount := 0
  arcount := 0
  questions := [⟨[[97]], 1, 1⟩, ⟨[[97]], 28, 1⟩]
  answers := [⟨[0xC0, 12], dnsHost, 1, 0, 60, [10, 0, 0, 8], by decide⟩]

/-- The owner may be a pointer to either of the questions. -/
theorem returns_setOwner_askedTwice :
    ReplacementOk askedTwice 0 askedTwice.answers[0] [0xC0, 19] ∧
    ∃ found, Returns askedTwice.buffer found ∧
      Returns (askedTwice.setAnswer 0 (askedTwice.answers[0].setOwner [0xC0, 19])).buffer
        found := by
  have hnames : ∀ off : UInt8, off = 12 ∨ off = 19 → NameField.Names ⟨[], some off⟩
      askedTwice.wire 26 (NotRoot askedTwice.wire) [[97]] := by
    rintro off (rfl | rfl)
    all_goals
      refine NameField.names_pointer (by unfold NotRoot; decide) ?_
      exact .label (by decide) (by unfold LabelOk; decide) (by unfold HasAt; decide)
        (.root (by decide) (by decide) (by decide))
  have hok : ReplacementOk askedTwice 0 askedTwice.answers[0] [0xC0, 19] := by
    have hpos : askedTwice.position 0 = 26 := by decide
    refine ⟨rfl, by decide, by decide, by unfold LabelOk; decide, fun a ha => ?_, ?_⟩
    · obtain rfl : a = askedTwice.answers[0] := List.mem_singleton.1 ha
      rw [hpos]
      exact ⟨Or.inl rfl, ⟨⟨[], some 12⟩, [[97]], rfl, hnames 12 (Or.inl rfl), by decide⟩,
        fun ht => absurd ht (by decide)⟩
    · rw [hpos]
      exact ⟨⟨[], some 12⟩, ⟨[], some 19⟩, [[97]], rfl, rfl, hnames 12 (Or.inl rfl),
        hnames 19 (Or.inr rfl), by decide⟩
  exact ⟨hok, (returns_setOwner hok (by decide)).1 rfl⟩

end CppExample.Dns
