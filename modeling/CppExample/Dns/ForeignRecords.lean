/-
# Records of other types

`dns_parse_response` knows host addresses and canonical names.  For a record of another type
it reads the fields up to the length of the data, but does not step over the data, so that
the next record is read from the data of this one.  Inserting such a record into the answers
of a message leaves the result unchanged if there are no data or nothing comes after the
record, and only then if it is to hold for all data of that length:
`returns_insertAnswer_iff`.
-/
import CppExample.Dns.Fields

namespace CppExample.Dns
open Lib

/-- The message with a record inserted in front of answer `i`, and counted. -/
def Message.insertAnswer (m : Message) (i : ℕ) (r : Record) : Message :=
  { m with answers := m.answers.take i ++ r :: m.answers.drop i }

/-- The same record, but for the bytes of its data. -/
structure Record.SameHead (r r' : Record) : Prop where
  ownerField : r.ownerField = r'.ownerField
  type : r.type = r'.type
  cls : r.cls = r'.cls
  ttlHigh : r.ttlHigh = r'.ttlHigh
  ttlLow : r.ttlLow = r'.ttlLow
  length : r.rdata.length = r'.rdata.length

/-- A message of uncompressed questions and of answers with two-byte owner fields, and a
record of another type to be inserted in front of answer `i`, where all pointer targets are in
front of it. -/
structure InsertionOk (m : Message) (i : ℕ) (r : Record) : Prop where
  position : i ≤ m.answers.length
  size : (m.insertAnswer i r).wire.length ≤ 1024
  labels : ∀ q ∈ m.questions, ∀ l ∈ q.labels, LabelOk l
  answers : ∀ a ∈ m.answers, a.ownerField.length = 2 ∧
    AnswerIn m.wire (m.position i) (fun _ => True) a
  owner : ∃ (nn : UInt8) (ls : List (List UInt8)), r.ownerField = [0xC0, nn] ∧
    NameIn m.wire (m.position i) (fun _ => True) nn.toNat ls ∧ (dotted ls).length ≤ 127
  type : r.type ≠ dnsHost ∧ r.type ≠ dnsCname

variable {m : Message} {i : ℕ} {r : Record}

/-! ## The two buffers -/

lemma take_insertAnswer (h : i ≤ m.answers.length) :
    (m.insertAnswer i r).answers.take i = m.answers.take i := by
  simp [Message.insertAnswer, h]

lemma drop_insertAnswer (h : i ≤ m.answers.length) :
    (m.insertAnswer i r).answers.drop i = r :: m.answers.drop i := by
  simp [Message.insertAnswer, h]

lemma position_insertAnswer (h : i ≤ m.answers.length) :
    (m.insertAnswer i r).position i = m.position i := by
  rw [Message.position, take_insertAnswer h]
  rfl

lemma agreeUpTo_insertAnswer (h : i ≤ m.answers.length) :
    AgreeUpTo (m.position i) m.wire (m.insertAnswer i r).buffer := by
  have hagree := @Message.agreeUpTo m (m.insertAnswer i r) i rfl (take_insertAnswer h) []
    (List.replicate (1024 - (m.insertAnswer i r).wire.length) 0)
  rw [List.append_nil] at hagree
  exact hagree

/-- The parts of the answer section in the buffer with the record. -/
lemma hasAt_insertAnswer (h : i ≤ m.answers.length) :
    HasAt (m.insertAnswer i r).buffer (12 + m.questionSection.length)
        ((m.answers.take i).flatMap Record.wire) ∧
      HasAt (m.insertAnswer i r).buffer (m.position i) r.wire ∧
      HasAt (m.insertAnswer i r).buffer (m.position i + r.wire.length)
        ((m.answers.drop i).flatMap Record.wire) := by
  have hbuf := hasAt_buffer (m.insertAnswer i r) i
  rw [take_insertAnswer h, drop_insertAnswer h, position_insertAnswer h, List.flatMap_cons,
    hasAt_append_iff] at hbuf
  exact hbuf

lemma length_insertAnswer (m : Message) (i : ℕ) (r : Record) :
    (m.insertAnswer i r).wire.length = m.wire.length + r.wire.length := by
  have hsplit : m.answers.flatMap Record.wire = (m.answers.take i).flatMap Record.wire
      ++ (m.answers.drop i).flatMap Record.wire := by
    rw [← List.flatMap_append, List.take_append_drop]
  have hq : (m.insertAnswer i r).questionSection = m.questionSection := rfl
  have ha : (m.insertAnswer i r).answers = m.answers.take i ++ r :: m.answers.drop i := rfl
  simp only [Message.wire, hsplit, ha, hq, List.flatMap_append, List.flatMap_cons,
    List.length_append, length_header]
  omega

lemma length_answers_insertAnswer (m : Message) (i : ℕ) (r : Record) :
    (m.insertAnswer i r).answers.length
      = (m.answers.take i).length + ((m.answers.drop i).length + 1) := by
  simp [Message.insertAnswer]

/-! ## The rounds on the message with the record -/

/-- The round on the record: the cursor stops in front of its data. -/
lemma InsertionOk.round (h : InsertionOk m i r) :
    Round (m.insertAnswer i r).buffer (m.position i) (m.position i + 12) none := by
  obtain ⟨nn, ls, howner, hname, hlen⟩ := h.owner
  obtain ⟨-, hrec, -⟩ := @hasAt_insertAnswer m i r h.position
  have htwo : r.ownerField.length = 2 := by rw [howner]; rfl
  obtain ⟨htype, hlength⟩ := r.hasAt_type_length htwo hrec
  have hfield := (r.hasAt_fields htwo hrec).1
  rw [howner] at hfield
  -- the name that the pointer leads to is in front of the record
  obtain ⟨text, hspells, hroom⟩ := hname.exists_spells
  have hsame := hname.same (fun _ _ _ => rfl) (@agreeUpTo_insertAnswer m i r h.position)
  have howner' := (hsame.spells_iff.1 hspells).head (.pointer hfield (by decide))
  have hle : text.length ≤ 128 := by
    have hroom' := roomFor_le ls
    omega
  exact .otherType ⟨howner', hle, htype, hlength⟩ h.type.2 h.type.1

/-- The rounds on both messages: the same in front of the record, and then those that begin
where the cursor stops. -/
lemma InsertionOk.rounds (h : InsertionOk m i r) {found : List DnsItem}
    (hret : Returns m.buffer found) :
    ∃ f g e, found = f ++ g ∧
      Rounds m.buffer (m.answers.drop i).length (m.position i) g e ∧
      ∀ found', Returns (m.insertAnswer i r).buffer found' ↔
        ∃ g' e', Rounds (m.insertAnswer i r).buffer (m.answers.drop i).length
          (m.position i + 12) g' e' ∧ found' = f ++ g' := by
  have hsize : m.wire.length ≤ 1024 := by
    have hsize := h.size
    rw [length_insertAnswer] at hsize
    omega
  have hsplit : m.answers.length = (m.answers.take i).length + (m.answers.drop i).length := by
    rw [← List.length_append, List.take_append_drop]
  have hrs : ∀ a ∈ m.answers.take i, a.ownerField.length = 2 ∧
      AnswerIn m.wire (m.position i) (fun _ => True) a :=
    fun a ha => h.answers a (List.mem_of_mem_take ha)
  obtain ⟨e, hrounds⟩ := (Message.returns_buffer_iff hsize h.labels).1 hret
  rw [hsplit] at hrounds
  obtain ⟨q, f, g, hf, hg, rfl⟩ := rounds_add_iff.1 hrounds
  obtain ⟨rfl, hf'⟩ := hf.same (agreeUpTo_buffer m i)
    (@agreeUpTo_insertAnswer m i r h.position) hrs (hasAt_buffer m i).1
    (@hasAt_insertAnswer m i r h.position).1
  rw [← m.position_eq] at hf' hg
  refine ⟨f, g, e, rfl, hg, fun found' => ?_⟩
  rw [Message.returns_buffer_iff h.size h.labels, length_answers_insertAnswer]
  constructor
  · rintro ⟨e', hrounds'⟩
    obtain ⟨q, f', g', hf₁, hg', rfl⟩ := rounds_add_iff.1 hrounds'
    obtain ⟨rfl, rfl⟩ := hf'.unique hf₁
    obtain ⟨q, o, rest, hround, hrest, rfl⟩ := rounds_succ_iff.1 hg'
    obtain ⟨rfl, rfl⟩ := h.round.unique hround
    exact ⟨rest, e', hrest, rfl⟩
  · rintro ⟨g', e', hg', rfl⟩
    exact ⟨e', rounds_add_iff.2 ⟨_, f, g', hf', .succ h.round hg', rfl⟩⟩

/-! ## When the result is unchanged -/

/-- Without data, or at the end, the record does no harm. -/
lemma InsertionOk.returns (h : InsertionOk m i r)
    (hcond : r.rdata.length = 0 ∨ i = m.answers.length) {found : List DnsItem}
    (hret : Returns m.buffer found) : Returns (m.insertAnswer i r).buffer found := by
  obtain ⟨f, g, e, rfl, hg, hiff⟩ := h.rounds hret
  refine (hiff _).2 ?_
  rcases hcond with hnil | hend
  · -- the cursor is at the next record
    have hlen : r.wire.length = 12 := by
      obtain ⟨nn, ls, howner, -⟩ := h.owner
      simp [Record.wire, howner, length_fixed, hnil]
    have hrs : ∀ a ∈ m.answers.drop i, a.ownerField.length = 2 ∧
        AnswerIn m.wire (m.position i) (fun _ => True) a :=
      fun a ha => h.answers a (List.mem_of_mem_drop ha)
    have hnext := (@hasAt_insertAnswer m i r h.position).2.2
    rw [hlen] at hnext
    obtain ⟨-, hg'⟩ := hg.same (agreeUpTo_buffer m i) (@agreeUpTo_insertAnswer m i r h.position)
      hrs (hasAt_buffer m i).2 hnext
    exact ⟨g, _, hg', rfl⟩
  · -- there is no next record
    have hnil : m.answers.drop i = [] := by
      rw [hend, List.drop_length]
    rw [hnil] at hg ⊢
    cases hg
    exact ⟨[], _, .zero _, rfl⟩

/-- With a label of 191 bytes in front of its data, the record makes the next round fail. -/
lemma InsertionOk.not_returns (h : InsertionOk m i r) {rest : List UInt8}
    (hdata : r.rdata = 0xBF :: rest) (hi : i < m.answers.length) {found : List DnsItem}
    (hret : Returns m.buffer found) (found' : List DnsItem) :
    ¬ Returns (m.insertAnswer i r).buffer found' := by
  intro hret'
  obtain ⟨f, g, e, rfl, -, hiff⟩ := h.rounds hret
  obtain ⟨g', e', hg', -⟩ := (hiff found').1 hret'
  obtain ⟨k, hk⟩ : ∃ k, (m.answers.drop i).length = k + 1 :=
    ⟨m.answers.length - i - 1, by rw [List.length_drop]; omega⟩
  rw [hk] at hg'
  obtain ⟨q, o, tail, hround, -, -⟩ := rounds_succ_iff.1 hg'
  obtain ⟨text, type, n, head⟩ := hround.exists_head
  -- the byte is where the next record is read, and there is no room for the label
  have hbyte : (m.insertAnswer i r).buffer[m.position i + 12]? = some 0xBF := by
    obtain ⟨nn, ls, howner, -⟩ := h.owner
    have hrec := (@hasAt_insertAnswer m i r h.position).2.1
    have hat := r.hasAt_rdata (by rw [howner]; rfl) hrec
    rw [hdata] at hat
    exact hat.getElem?
  have hlong : (0xBF : UInt8).toNat ≤ text.length :=
    head.owner.toNat_le_length hbyte (by decide) (by decide)
  exact absurd (hlong.trans head.room) (by decide)

lemma InsertionOk.sameHead {r' : Record} (h : InsertionOk m i r) (hhead : r.SameHead r') :
    InsertionOk m i r' := by
  refine ⟨h.position, ?_, h.labels, h.answers, ?_, ?_⟩
  · have hsize := h.size
    have hlen : r'.wire.length = r.wire.length := by
      simp only [Record.wire, List.length_append, length_fixed, hhead.ownerField, hhead.length]
    rw [length_insertAnswer] at hsize ⊢
    omega
  · rw [← hhead.ownerField]
    exact h.owner
  · rw [← hhead.type]
    exact h.type

/-- **When a record of another type does not disturb the decoding.**  For a message that
`dns_parse_response` returns a list for, inserting such a record leaves the list unchanged,
whatever its data are, if and only if the record has no data or is inserted behind the last
answer. -/
theorem returns_insertAnswer_iff (h : InsertionOk m i r) {found : List DnsItem}
    (hret : Returns m.buffer found) :
    (∀ r' : Record, r.SameHead r' → Returns (m.insertAnswer i r').buffer found) ↔
      r.rdata.length = 0 ∨ i = m.answers.length := by
  constructor
  · intro hall
    by_contra hnot
    obtain ⟨hne, hend⟩ := not_or.1 hnot
    have hlt := r.rdata_lt
    let r' : Record := { r with
      rdata := List.replicate r.rdata.length 0xBF
      rdata_lt := by rw [List.length_replicate]; exact hlt }
    have hhead : r.SameHead r' := ⟨rfl, rfl, rfl, rfl, rfl, List.length_replicate.symm⟩
    obtain ⟨k, hk⟩ := Nat.exists_eq_succ_of_ne_zero hne
    have hdata : r'.rdata = 0xBF :: List.replicate k 0xBF := by
      show List.replicate r.rdata.length 0xBF = _
      rw [hk, List.replicate_succ]
    have hi : i < m.answers.length := lt_of_le_of_ne h.position hend
    exact (h.sameHead hhead).not_returns hdata hi hret found (hall r' hhead)
  · intro hcond r' hhead
    refine (h.sameHead hhead).returns ?_ hret
    rw [← hhead.length]
    exact hcond

/-- A record of type NULL with these data, for the name at offset 12. -/
def nullRecord (rdata : List UInt8) (h : rdata.length < 65536) : Record :=
  ⟨[0xC0, 12], 10, 1, 0, 0, rdata, h⟩

/-- The record can be inserted between the two answers of `sampleMessage`. -/
lemma insertionOk_sample {rdata : List UInt8} (h : rdata.length ≤ 1) :
    InsertionOk sampleMessage 1 (nullRecord rdata (by omega)) := by
  have hpos : sampleMessage.position 1 = 35 := by decide
  refine ⟨by decide, ?_, by unfold LabelOk; decide, fun a ha => ?_, ?_, ?_⟩
  · have hwire : sampleMessage.wire.length = 51 := by decide
    have hrec : (nullRecord rdata (by omega)).wire.length = 12 + rdata.length := by
      simp [nullRecord, Record.wire, length_fixed]
      omega
    rw [length_insertAnswer, hwire, hrec]
    omega
  · rw [hpos]
    exact answerIn_sample trivial trivial a ha
  · rw [hpos]
    exact ⟨12, [[97]], rfl, nameIn_sample, by decide⟩
  · exact (by decide : (10 : UInt16) ≠ dnsHost ∧ (10 : UInt16) ≠ dnsCname)

/-- A record of one byte in front of the address makes the function leave its array. -/
theorem disturbedDecoding : InsertionOk sampleMessage 1 (nullRecord [0xBF] (by decide)) ∧
    Returns sampleMessage.buffer
      [⟨some [98, 46, 97], some [49, 48, 46, 48, 46, 48, 46, 55]⟩] ∧
    ¬ Returns (sampleMessage.insertAnswer 1 (nullRecord [0xBF] (by decide))).buffer
      [⟨some [98, 46, 97], some [49, 48, 46, 48, 46, 48, 46, 55]⟩] := by
  have hok := @insertionOk_sample [0xBF] (by decide)
  have hret := sampleMessage_wellFormed.returns
  refine ⟨hok, hret, ?_⟩
  exact hok.not_returns rfl (by decide) hret _

/-- A record without data in front of the address changes nothing. -/
theorem returns_insertAnswer_sample :
    Returns (sampleMessage.insertAnswer 1 (nullRecord [] (by decide))).buffer
      [⟨some [98, 46, 97], some [49, 48, 46, 48, 46, 48, 46, 55]⟩] :=
  (returns_insertAnswer_iff (@insertionOk_sample [] (by decide))
    sampleMessage_wellFormed.returns).2 (Or.inl rfl) _ ⟨rfl, rfl, rfl, rfl, rfl, rfl⟩

end CppExample.Dns
