/-
# Messages

A response as RFC 1035 lays it out: a header with the two counts, the questions with
uncompressed names, and the answer records.  Numbers are in network order, which is what
`ntohs` undoes; the text of an address and the names of the result are C strings.
-/
import CppExample.Dns.Names

namespace CppExample.Dns
open Lib

/-! ## Messages -/

/-- The two bytes of a number in network order. -/
def be16 (x : UInt16) : List UInt8 := [UInt8.ofNat (x.toNat / 256), UInt8.ofNat (x.toNat % 256)]

/-- A question with an uncompressed name. -/
structure Question where
  labels : List (List UInt8)
  qtype : UInt16
  qclass : UInt16
deriving DecidableEq, Repr

/-- The bytes of a question. -/
def Question.wire (q : Question) : List UInt8 :=
  encodeName q.labels ++ (be16 q.qtype ++ be16 q.qclass)

/-- A resource record.  The length of its data fits in the field for it. -/
structure Record where
  ownerField : List UInt8
  type : UInt16
  cls : UInt16
  ttlHigh : UInt16
  ttlLow : UInt16
  rdata : List UInt8
  rdata_lt : rdata.length < 65536
deriving DecidableEq, Repr

/-- The fields between the owner and the data of a record. -/
def Record.fixed (r : Record) : List UInt8 :=
  be16 r.type ++ (be16 r.cls ++ (be16 r.ttlHigh ++ (be16 r.ttlLow
    ++ be16 (UInt16.ofNat r.rdata.length))))

/-- The bytes of a record. -/
def Record.wire (r : Record) : List UInt8 := r.ownerField ++ (r.fixed ++ r.rdata)

/-- A message with its question and answer sections. -/
structure Message where
  id : UInt16
  flags : UInt16
  nscount : UInt16
  arcount : UInt16
  questions : List Question
  answers : List Record
deriving DecidableEq, Repr

namespace Message

/-- The header, with the counts of the two sections. -/
def header (m : Message) : List UInt8 :=
  be16 m.id ++ (be16 m.flags ++ (be16 (UInt16.ofNat m.questions.length)
    ++ (be16 (UInt16.ofNat m.answers.length) ++ (be16 m.nscount ++ be16 m.arcount))))

/-- The bytes of the question section. -/
def questionSection (m : Message) : List UInt8 := m.questions.flatMap Question.wire

/-- The bytes of a message. -/
def wire (m : Message) : List UInt8 :=
  m.header ++ (m.questionSection ++ m.answers.flatMap Record.wire)

end Message

/-- The records of a section that starts at `off`, each with its offset. -/
def placedFrom : ℕ → List Record → List (ℕ × Record)
  | _, [] => []
  | off, r :: rs => (off, r) :: placedFrom (off + r.wire.length) rs

/-- The answer records of a message with their offsets. -/
def Message.placed (m : Message) : List (ℕ × Record) :=
  placedFrom (12 + m.questionSection.length) m.answers

/-! ## Two-byte fields -/

@[simp] lemma length_be16 (x : UInt16) : (be16 x).length = 2 := rfl

/-- Reading a field of the message and swapping its bytes gives the number. -/
lemma loadShort_be16 {buf : List UInt8} {off : ℕ} {x : UInt16} (h : HasAt buf off (be16 x)) :
    ∃ y, loadShort buf off = .ok y ∧ htons y = x := by
  obtain ⟨h0, h1⟩ := hasAt_cons_iff.1 h
  have hx := x.toNat_lt
  refine ⟨_, by rw [loadShort, load_of_getElem? h0, load_of_getElem? h1.getElem?]; rfl, ?_⟩
  apply UInt16.toNat_inj.1
  simp only [htons, UInt16.toNat_ofNat', UInt8.toNat_ofNat']
  have hhi : x.toNat / 256 % 2 ^ 8 = x.toNat / 256 := Nat.mod_eq_of_lt (by omega)
  have hlo : x.toNat % 256 % 2 ^ 8 = x.toNat % 256 := Nat.mod_eq_of_lt (by omega)
  have hshort : (x.toNat / 256 + 256 * (x.toNat % 256)) % 2 ^ 16
      = x.toNat / 256 + 256 * (x.toNat % 256) := Nat.mod_eq_of_lt (by omega)
  have hmod : (x.toNat / 256 + 256 * (x.toNat % 256)) % 256 = x.toNat / 256 := by omega
  have hdiv : (x.toNat / 256 + 256 * (x.toNat % 256)) / 256 = x.toNat % 256 := by omega
  rw [hhi, hlo, hshort, hmod, hdiv, Nat.mod_eq_of_lt (by omega)]
  omega

/-- A number that was read stands there in network order. -/
lemma hasAt_of_loadShort {buf : List UInt8} {off : ℕ} {y : UInt16}
    (h : loadShort buf off = .ok y) : HasAt buf off (be16 (htons y)) := by
  obtain ⟨lo, hlo, h⟩ := bind_eq_ok.1 (show (load buf off >>= _) = _ from h)
  obtain ⟨hi, hhi, h⟩ := bind_eq_ok.1 h
  have hlo' := lo.toNat_lt
  have hhi' := hi.toNat_lt
  have hy : (htons y).toNat = 256 * lo.toNat + hi.toNat := by
    have hshort : (lo.toNat + 256 * hi.toNat) % 2 ^ 16 = lo.toNat + 256 * hi.toNat :=
      Nat.mod_eq_of_lt (by omega)
    have hmod : (lo.toNat + 256 * hi.toNat) % 256 = lo.toNat := by omega
    have hdiv : (lo.toNat + 256 * hi.toNat) / 256 = hi.toNat := by omega
    rw [← Except.ok.inj h]
    simp only [htons, UInt16.toNat_ofNat', hshort, hmod, hdiv]
    omega
  rw [be16, hy, show (256 * lo.toNat + hi.toNat) / 256 = lo.toNat by omega,
    show (256 * lo.toNat + hi.toNat) % 256 = hi.toNat by omega, UInt8.ofNat_toNat,
    UInt8.ofNat_toNat]
  exact hasAt_cons_iff.2 ⟨getElem?_of_load hlo,
    hasAt_cons_iff.2 ⟨getElem?_of_load hhi, List.nil_prefix⟩⟩

/-- There is one number in a field. -/
lemma be16_unique {buf : List UInt8} {off : ℕ} {x x' : UInt16} (h : HasAt buf off (be16 x))
    (h' : HasAt buf off (be16 x')) : x = x' := by
  obtain ⟨y, hy, rfl⟩ := loadShort_be16 h
  obtain ⟨y', hy', rfl⟩ := loadShort_be16 h'
  obtain rfl := Except.ok.inj (hy.symm.trans hy')
  rfl

/-- A field inside the buffer can be read. -/
lemma loadShort_of_lt {buf : List UInt8} {off : ℕ} (h : off + 1 < buf.length) :
    ∃ x, loadShort buf off = .ok x := by
  have h0 : buf[off]? = some buf[off] := List.getElem?_eq_getElem (by omega)
  have h1 : buf[off + 1]? = some buf[off + 1] := List.getElem?_eq_getElem h
  exact ⟨_, by rw [loadShort, load_of_getElem? h0, load_of_getElem? h1]; rfl⟩

lemma length_fixed (r : Record) : r.fixed.length = 10 := by
  simp [Record.fixed]

lemma length_header (m : Message) : m.header.length = 12 := by
  simp [Message.header]

/-! ## The text of an address -/

lemma decimal_spec (b : UInt8) : (decimal b).length ≤ 3 ∧ (0 : UInt8) ∉ decimal b := by
  have hall : ∀ n < 256, (decimal (UInt8.ofNat n)).length ≤ 3
      ∧ (0 : UInt8) ∉ decimal (UInt8.ofNat n) := by decide +kernel
  have h := hall b.toNat b.toNat_lt
  rwa [UInt8.ofNat_toNat] at h

lemma dottedQuad_spec {netip : List UInt8} (h : netip.length = 4) :
    (dottedQuad netip).length ≤ 15 ∧ (0 : UInt8) ∉ dottedQuad netip := by
  obtain ⟨a, b, c, d, rfl⟩ := List.length_eq_four.1 h
  have ha := decimal_spec a
  have hb := decimal_spec b
  have hc := decimal_spec c
  have hd := decimal_spec d
  have hdot : (0 : UInt8) ≠ dot := by decide
  simp only [dottedQuad, List.map_cons, List.map_nil, List.intercalate, List.intersperse,
    List.flatten_cons, List.flatten_nil, List.append_nil, List.length_append,
    List.length_cons, List.length_nil, List.mem_append, List.mem_singleton]
  refine ⟨by omega, ?_⟩
  tauto

lemma decimal_no_dot (b : UInt8) : dot ∉ decimal b := by
  have hall : ∀ n < 256, dot ∉ decimal (UInt8.ofNat n) := by decide +kernel
  have h := hall b.toNat b.toNat_lt
  rwa [UInt8.ofNat_toNat] at h

/-- A byte can be read back from its digits. -/
lemma decimal_injective : Function.Injective decimal := by
  have hall : ∀ n < 256,
      (decimal (UInt8.ofNat n)).foldl (fun v d => 10 * v + (d.toNat - 48)) 0 = n := by
    decide +kernel
  intro a b h
  have ha := hall a.toNat a.toNat_lt
  have hb := hall b.toNat b.toNat_lt
  rw [UInt8.ofNat_toNat] at ha hb
  rw [h, hb] at ha
  exact (UInt8.toNat_inj.1 ha).symm

/-- An address can be read back from its text. -/
lemma dottedQuad_inj {netip netip' : List UInt8} (hne : netip ≠ []) (hne' : netip' ≠ [])
    (h : dottedQuad netip = dottedQuad netip') : netip = netip' := by
  have hsplit : ∀ {a : List UInt8}, a ≠ [] → (dottedQuad a).splitOn dot = a.map decimal := by
    intro a ha
    refine List.splitOn_intercalate dot (fun l hl => ?_) (by simpa using ha)
    obtain ⟨b, -, rfl⟩ := List.mem_map.1 hl
    exact decimal_no_dot b
  have hmap := congrArg (List.splitOn dot) h
  rw [hsplit hne, hsplit hne'] at hmap
  exact List.map_injective_iff.2 decimal_injective hmap

/-- The text up to its first NUL. -/
def cutAtNul (text : List UInt8) : List UInt8 := text.takeWhile (· != 0)

lemma cutAtNul_of_notMem {text : List UInt8} (h : (0 : UInt8) ∉ text) : cutAtNul text = text := by
  have hall : ∀ b ∈ text, (b != 0) = true := by
    intro b hb
    simp only [bne_iff_ne, ne_eq]
    rintro rfl
    exact h hb
  rw [cutAtNul, ← List.append_nil text, List.takeWhile_append_of_pos hall, List.takeWhile_nil]

/-- Zero bytes behind a text do not change what is in front of its first NUL. -/
lemma cutAtNul_append_replicate (text : List UInt8) (n : ℕ) :
    cutAtNul (text ++ List.replicate n 0) = cutAtNul text := by
  induction text with
  | nil => cases n <;> simp [cutAtNul, List.replicate_succ]
  | cons b text ih =>
    by_cases hb : b = 0
    · simp [cutAtNul, hb]
    · simpa [cutAtNul, hb] using ih

/-- Reading back a C string that is followed by zero bytes, or has a NUL in it. -/
lemma cstr_append_replicate (text : List UInt8) {n : ℕ} (h : 0 < n ∨ 0 ∈ text) :
    cstr (text ++ List.replicate n 0) = .ok (cutAtNul text) := by
  have hmem : (0 : UInt8) ∈ text ++ List.replicate n 0 := by
    rw [List.mem_append, List.mem_replicate]
    rcases h with h | h
    · exact Or.inr ⟨by omega, rfl⟩
    · exact Or.inl h
  rw [cstr, if_pos hmem, ← cutAtNul_append_replicate text n, cutAtNul]

/-- A text in an array that is a C string. -/
lemma of_cstr {text domain : List UInt8} {n : ℕ}
    (h : cstr (text ++ List.replicate n 0) = .ok domain) :
    (0 < n ∨ 0 ∈ text) ∧ domain = cutAtNul text := by
  have hmem : 0 < n ∨ 0 ∈ text := by
    by_contra hnone
    rw [not_or, not_lt, Nat.le_zero] at hnone
    rw [hnone.1, List.replicate_zero, List.append_nil, cstr, if_neg hnone.2] at h
    cases h
  rw [cstr_append_replicate text hmem] at h
  exact ⟨hmem, (Except.ok.inj h).symm⟩

/-- `inet_ntop` into the zeroed array `ip`, and the C string that is in it then. -/
lemma inetNtop_cstr {netip : List UInt8} (h : netip.length = 4) :
    ∃ ip, inetNtop netip (List.replicate 20 0) 16 = .ok ip ∧ cstr ip = .ok (dottedQuad netip) := by
  obtain ⟨hlen, hnul⟩ := dottedQuad_spec h
  have hroom : (dottedQuad netip ++ [0]).length ≤ 20 := by
    rw [List.length_append, List.length_singleton]
    omega
  have hstore : store ([] ++ List.replicate 20 (0 : UInt8)) 0 (dottedQuad netip ++ [0]) = _ :=
    store_append_replicate rfl hroom
  refine ⟨_, by rw [inetNtop, if_pos (by omega)]; exact hstore, ?_⟩
  have hcell : [] ++ (dottedQuad netip ++ [0])
      ++ List.replicate (20 - (dottedQuad netip ++ [0]).length) (0 : UInt8)
      = dottedQuad netip
        ++ List.replicate (20 - (dottedQuad netip ++ [0]).length + 1) (0 : UInt8) := by
    simp [List.replicate_succ]
  rw [hcell]
  rw [cstr_append_replicate _ (Or.inl (Nat.succ_pos _)), cutAtNul_of_notMem hnul]

end CppExample.Dns
