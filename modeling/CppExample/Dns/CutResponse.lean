/-
# Cut responses

What `recvfrom` returns is not passed to the parser.  Of a response that is cut to its first
bytes the parser reads the missing ones as zeros: labels end, a question takes five bytes, and a
record has type 0 and takes twelve.  So the cursor stays in front of where it would be in the
whole response, and behind the cut it adds nothing.

What can go wrong is in the record that the cut goes through: an address with missing bytes is
entered with zeros for them, and a pointer without its second byte leads to the header.
`Survives` says that neither happens, and `cut_prefix_iff` that this decides the result.
-/
import CppExample.Dns.Fields

namespace CppExample.Dns
open Lib

variable {full cut : List UInt8} {n p q : ℕ}

/-- The buffer has the first `n` bytes of another one, and zeros behind them. -/
structure CutAt (full cut : List UInt8) (n : ℕ) : Prop where
  size : full.length ≤ 1024
  agree : ∀ i < n, cut[i]? = full[i]?
  zero : ∀ i, n ≤ i → i < 1024 → cut[i]? = some 0

lemma CutAt.hasAt (h : CutAt full cut n) {off : ℕ} {xs : List UInt8} (hx : HasAt full off xs)
    (hend : off + xs.length ≤ n) : HasAt cut off xs := by
  rw [hasAt_iff_getElem?] at hx ⊢
  intro i hi
  rw [h.agree (off + i) (by omega), hx i hi]

/-- Bytes some of which are missing are the same if the missing ones are zeros. -/
lemma CutAt.hasAt_iff (h : CutAt full cut n) {off : ℕ} {xs : List UInt8} (hx : HasAt full off xs)
    (hend : off + xs.length ≤ 1024) :
    HasAt cut off xs ↔ ∀ i b, n ≤ off + i → xs[i]? = some b → b = 0 := by
  rw [hasAt_iff_getElem?] at hx ⊢
  constructor
  · intro hcut i b hi hb
    have hlt := (List.getElem?_eq_some_iff.1 hb).1
    have hzero := hcut i hlt
    rw [h.zero _ hi (by omega), hb] at hzero
    exact (Option.some.inj hzero).symm
  · intro hall i hlt
    by_cases hi : off + i < n
    · rw [h.agree _ hi, hx i hlt]
    · have hb : xs[i]? = some xs[i] := List.getElem?_eq_getElem hlt
      rw [h.zero _ (not_lt.1 hi) (by omega), hb, hall i _ (not_lt.1 hi) hb]

/-- A number of which bytes may be missing. -/
lemma CutAt.exists_be16 (h : CutAt full cut n) {off : ℕ} {x : UInt16}
    (hx : HasAt full off (be16 x)) (hend : off + 1 < 1024) :
    ∃ x', HasAt cut off (be16 x') ∧ x'.toNat ≤ x.toNat ∧ (off + 1 < n → x' = x) ∧
      (n ≤ off + 1 → x'.toNat % 256 = 0) := by
  by_cases hlo : off + 1 < n
  · exact ⟨x, h.hasAt hx hlo, le_rfl, fun _ => rfl, fun hn => absurd hlo (not_lt.2 hn)⟩
  have hzero := h.zero (off + 1) (not_lt.1 hlo) hend
  by_cases hhi : off < n
  · -- the low byte is missing
    have hlt := x.toNat_lt
    have hx' : (UInt16.ofNat (256 * (x.toNat / 256))).toNat = 256 * (x.toNat / 256) := by
      rw [UInt16.toNat_ofNat', Nat.mod_eq_of_lt (by omega)]
    refine ⟨UInt16.ofNat (256 * (x.toNat / 256)), hasAt_cons_iff.2 ⟨?_, hasAt_cons_iff.2
      ⟨?_, List.nil_prefix⟩⟩, by omega, fun hn => absurd hn hlo, fun _ => by omega⟩
    · rw [h.agree off hhi, hx.getElem?, hx', Nat.mul_div_cancel_left _ (by decide)]
    · rw [hzero, hx', Nat.mul_mod_right]
      rfl
  · refine ⟨0, hasAt_cons_iff.2 ⟨h.zero off (not_lt.1 hhi) (by omega),
      hasAt_cons_iff.2 ⟨hzero, List.nil_prefix⟩⟩, Nat.zero_le _, fun hn => absurd hn hlo,
      fun _ => rfl⟩

/-- A number behind the cut. -/
lemma CutAt.hasAt_zero (h : CutAt full cut n) {off : ℕ} (hoff : n ≤ off) (hend : off + 1 < 1024) :
    HasAt cut off (be16 0) :=
  hasAt_cons_iff.2 ⟨h.zero off hoff (by omega),
    hasAt_cons_iff.2 ⟨h.zero (off + 1) (by omega) hend, List.nil_prefix⟩⟩

/-! ## Behind the cut -/

/-- A round on zeros. -/
lemma CutAt.round_zero (h : CutAt full cut n) (hp : n ≤ p) (hend : p + 12 ≤ 1024) :
    Round cut p (p + 12) none := by
  have howner : Spells cut p [] := .root (h.zero p hp (by omega))
  refine .otherType ⟨howner, Nat.zero_le _, h.hasAt_zero (by omega) (by omega),
    h.hasAt_zero (by omega) (by omega)⟩ (by decide) (by decide)

lemma CutAt.rounds_zero (h : CutAt full cut n) (k : ℕ) (hp : n ≤ p) (hend : p + 12 * k ≤ 1024) :
    Rounds cut k p [] (p + 12 * k) := by
  induction k generalizing p with
  | zero => exact .zero p
  | succ k ih =>
    have hrest := ih (show n ≤ p + 12 by omega) (by omega)
    rw [show p + 12 + 12 * k = p + 12 * (k + 1) by omega] at hrest
    exact .succ (h.round_zero hp (by omega)) hrest

lemma CutAt.skips_zero (h : CutAt full cut n) (k : ℕ) (hp : n ≤ p) (hend : p + 5 * k ≤ 1024) :
    Skips cut k p (p + 5 * k) := by
  induction k generalizing p with
  | zero => exact .zero p
  | succ k ih =>
    have hrest := ih (show n ≤ p + 1 + 4 by omega) (by omega)
    rw [show p + 1 + 4 + 5 * k = p + 5 * (k + 1) by omega] at hrest
    exact .succ (.root (h.zero p hp (by omega))) hrest

/-! ## The questions -/

lemma SkipsName.lt (h : SkipsName full p q) : p < q := by
  induction h with
  | root h => exact Nat.lt_succ_self _
  | label h h0 rest ih => omega

lemma Skips.le {k : ℕ} (h : Skips full k p q) : p + 5 * k ≤ q := by
  induction h with
  | zero p => exact le_rfl
  | succ h rest ih =>
    have hlt := h.lt
    omega

/-- A name of a question is skipped as in the whole response, or the cursor stops earlier, but
behind the cut. -/
lemma CutAt.skipsName (h : CutAt full cut n) (hname : SkipsName full p q) :
    ∃ q', SkipsName cut p q' ∧ q' ≤ q ∧ (q' = q ∨ n < q') := by
  have hsize := h.size
  induction hname with
  | @root p hb =>
    have hlt := (List.getElem?_eq_some_iff.1 hb).1
    refine ⟨p + 1, .root ?_, le_rfl, Or.inl rfl⟩
    by_cases hp : p < n
    · rw [h.agree p hp, hb]
    · exact h.zero p (not_lt.1 hp) (by omega)
  | @label p q flag hb h0 rest ih =>
    have hlt := (List.getElem?_eq_some_iff.1 hb).1
    have hle := rest.lt
    by_cases hp : p < n
    · obtain ⟨q', hskips, hq'⟩ := ih
      exact ⟨q', .label (by rw [h.agree p hp, hb]) h0 hskips, hq'⟩
    · exact ⟨p + 1, .root (h.zero p (not_lt.1 hp) (by omega)), by omega, Or.inr (by omega)⟩

lemma CutAt.skips (h : CutAt full cut n) {k : ℕ} (hskips : Skips full k p q) (hq : q ≤ 1024) :
    ∃ q', Skips cut k p q' ∧ q' ≤ q ∧ (q' = q ∨ n ≤ q') := by
  induction hskips with
  | zero p => exact ⟨p, .zero p, le_rfl, Or.inl rfl⟩
  | @succ k p q r hname rest ih =>
    obtain ⟨q', hname', hle, hcases⟩ := h.skipsName hname
    rcases hcases with rfl | hlt
    · obtain ⟨r', hrest', hr'⟩ := ih hq
      exact ⟨r', .succ hname' hrest', hr'⟩
    · -- the other questions are zeros
      have hrest := rest.le
      have hzero := h.skips_zero k (show n ≤ q' + 4 by omega) (by omega)
      exact ⟨_, .succ hname' hzero, by omega, Or.inr (by omega)⟩

/-! ## The record that the cut goes through -/

lemma Spells.lt_length {text : List UInt8} (h : Spells full p text) : p < full.length := by
  obtain ⟨q, hgathers, h0⟩ := h
  cases hgathers with
  | refl => exact (List.getElem?_eq_some_iff.1 h0).1
  | head hround _ =>
    cases hround with
    | pointer hat _ => exact (List.getElem?_eq_some_iff.1 hat.getElem?).1
    | label _ hat _ => exact (List.getElem?_eq_some_iff.1 hat.getElem?).1

section Record

variable {r : Record} {o : Option DnsItem}

/-- The record gives the same in the cut response: its names are still decoded, and an address
that is entered has the same owner and no byte is missing but zeros. -/
structure Survives (full cut : List UInt8) (n : ℕ) (p : ℕ × Record) : Prop where
  owner : ∃ text, Spells cut p.1 text ∧ text.length ≤ 128
  target : p.2.type = dnsCname → p.1 + 12 ≤ n →
    ∃ text, Spells cut (p.1 + 12) text ∧ text.length ≤ 128
  text : p.2.type = dnsHost → p.2.rdata.length = 4 → p.1 + 12 ≤ n → ∀ text text',
    Spells full p.1 text → Spells cut p.1 text' →
      cutAtNul text' = cutAtNul text ∧ (0 < 128 - text'.length ∨ 0 ∈ text')
  address : p.2.type = dnsHost → p.2.rdata.length = 4 → p.1 + 12 ≤ n → ∀ i b,
    n ≤ p.1 + 12 + i → p.2.rdata[i]? = some b → b = 0

/-- The fixed fields are in front of the cut. -/
lemma CutAt.round_iff_survives (h : CutAt full cut n) (hr : Expected r)
    (hat : HasAt full p r.wire) (hend : p + r.wire.length ≤ 1024) (hn : p + 12 ≤ n)
    (hfull : Round full p q o) : Round cut p q o ↔ Survives full cut n (p, r) := by
  obtain ⟨htype, hlen⟩ := r.hasAt_type_length hr.1 hat
  have htype' := h.hasAt htype (by rw [length_be16]; omega)
  have hlen' := h.hasAt hlen (by rw [length_be16]; omega)
  have hdata := r.hasAt_rdata hr.1 hat
  have hwire := Record.length_wire hr.1
  rcases hr.cases with hcname | ⟨hhost, hne⟩ | ⟨hhost, h4⟩
  · have hno : r.type ≠ dnsHost := by rw [hcname]; decide
    obtain ⟨rfl, rfl, -, -⟩ := (round_cname_iff hr htype hlen hcname).1 hfull
    rw [round_cname_iff hr htype' hlen' hcname]
    constructor
    · rintro ⟨-, -, howner, htarget⟩
      exact ⟨howner, fun _ _ => htarget, fun hc => absurd hc hno, fun hc => absurd hc hno⟩
    · intro hs
      exact ⟨rfl, rfl, hs.owner, hs.target hcname hn⟩
  · obtain ⟨rfl, rfl, -⟩ := (round_otherLength_iff hr htype hlen hhost hne).1 hfull
    rw [round_otherLength_iff hr htype' hlen' hhost hne]
    constructor
    · rintro ⟨-, -, howner⟩
      exact ⟨howner, fun hc => absurd (hhost.symm.trans hc) (by decide), fun _ hc => absurd hc hne,
        fun _ hc => absurd hc hne⟩
    · intro hs
      exact ⟨rfl, rfl, hs.owner⟩
  · obtain ⟨rfl, text, hspells, -, -, netip, hnetip, hdata₁, rfl⟩ :=
      (round_address_iff hr htype hlen hhost h4).1 hfull
    obtain rfl : netip = r.rdata := hdata₁.unique hdata (hnetip.trans h4.symm)
    have hbytes := h.hasAt_iff hdata (by omega)
    rw [round_address_iff hr htype' hlen' hhost h4]
    constructor
    · rintro ⟨-, text', hspells', hroom', hnul, netip', hnetip', hdata', heq⟩
      simp only [Option.some.injEq, DnsItem.mk.injEq] at heq
      -- the address that is entered is that of the record, so its last bytes are zeros
      obtain rfl : r.rdata = netip' := dottedQuad_inj (List.ne_nil_of_length_pos (by omega))
        (List.ne_nil_of_length_pos (by omega)) heq.2
      refine ⟨⟨text', hspells', hroom'⟩, fun hc => absurd (hhost.symm.trans hc) (by decide),
        fun _ _ _ t t' hs hs' => ?_, fun _ _ _ => hbytes.1 hdata'⟩
      rw [hs.unique hspells, hs'.unique hspells']
      exact ⟨heq.1.symm, hnul⟩
    · intro hs
      obtain ⟨text', hspells', hroom'⟩ := hs.owner
      obtain ⟨heq, hnul⟩ := hs.text hhost h4 hn text text' hspells hspells'
      exact ⟨rfl, text', hspells', hroom', hnul, r.rdata, h4,
        hbytes.2 (hs.address hhost h4 hn), by rw [heq]⟩

/-- A record of which the names are in front of the cut: all that can be lost of it are bytes of
an address. -/
theorem survives_iff (hr : Expected r) (hat : HasAt full p r.wire)
    (hfull : Round full p q o) (howner : SameName full cut p p)
    (htarget : r.type = dnsCname → SameName full cut (p + 12) (p + 12)) :
    Survives full cut n (p, r) ↔ (r.type = dnsHost → r.rdata.length = 4 → p + 12 ≤ n →
      ∀ i b, n ≤ p + 12 + i → r.rdata[i]? = some b → b = 0) := by
  refine ⟨fun hs => hs.address, fun haddress => ?_⟩
  obtain ⟨htype, hlen⟩ := r.hasAt_type_length hr.1 hat
  rcases hr.cases with hcname | ⟨hhost, hne⟩ | ⟨hhost, h4⟩
  · have hno : r.type ≠ dnsHost := by rw [hcname]; decide
    obtain ⟨-, -, ⟨text, hspells, hroom⟩, target, hs, hroom'⟩ :=
      (round_cname_iff hr htype hlen hcname).1 hfull
    exact ⟨⟨text, howner.spells_iff.1 hspells, hroom⟩,
      fun _ _ => ⟨target, (htarget hcname).spells_iff.1 hs, hroom'⟩, fun hc => absurd hc hno,
      haddress⟩
  · obtain ⟨-, -, text, hspells, hroom⟩ := (round_otherLength_iff hr htype hlen hhost hne).1 hfull
    exact ⟨⟨text, howner.spells_iff.1 hspells, hroom⟩,
      fun hc => absurd (hhost.symm.trans hc) (by decide), fun _ hc => absurd hc hne, haddress⟩
  · obtain ⟨-, text, hspells, hroom, hnul, -⟩ :=
      (round_address_iff hr htype hlen hhost h4).1 hfull
    refine ⟨⟨text, howner.spells_iff.1 hspells, hroom⟩,
      fun hc => absurd (hhost.symm.trans hc) (by decide), fun _ _ _ t t' hs hs' => ?_, haddress⟩
    obtain rfl := hs.unique hspells
    obtain rfl := hs'.unique (howner.spells_iff.1 hspells)
    exact ⟨rfl, hnul⟩

/-- A complete record with its names in front of the cut survives. -/
lemma survives_of_complete (hr : Expected r) (hat : HasAt full p r.wire)
    (hfull : Round full p q o) (howner : SameName full cut p p)
    (htarget : r.type = dnsCname → SameName full cut (p + 12) (p + 12))
    (hend : p + r.wire.length ≤ n) : Survives full cut n (p, r) := by
  refine (survives_iff hr hat hfull howner htarget).2 fun _ _ _ i b hi hb => ?_
  have hlt := (List.getElem?_eq_some_iff.1 hb).1
  rw [Record.length_wire hr.1] at hend
  omega

/-- A record of which the cut parts the pointer: the name that is read in its place begins with
the header, and must come to an end. -/
theorem CutAt.survives_parted_iff (h : CutAt full cut (p + 1)) {nn : UInt8}
    (howner : r.ownerField = [0xC0, nn]) (hat : HasAt full p r.wire)
    (hend : p + r.wire.length ≤ 1024) :
    Survives full cut (p + 1) (p, r) ↔ ∃ text, Spells cut 0 text ∧ text.length ≤ 128 := by
  have htwo : r.ownerField.length = 2 := by rw [howner]; rfl
  have hwire := Record.length_wire htwo
  have hown := (r.hasAt_fields htwo hat).1
  rw [howner] at hown
  have hparted : HasAt cut p [0xC0, 0] := by
    refine hasAt_cons_iff.2 ⟨?_, hasAt_cons_iff.2 ⟨?_, List.nil_prefix⟩⟩
    · rw [h.agree p (Nat.lt_succ_self p), hown.getElem?]
    · exact h.zero (p + 1) le_rfl (by omega)
  have hiff : ∀ text, Spells cut p text ↔ Spells cut 0 text := by
    intro text
    rw [(Follows.pointer hparted (by decide)).spells_iff]
    simp
  constructor
  · intro hs
    obtain ⟨text, hspells, hroom⟩ := hs.owner
    exact ⟨text, (hiff text).1 hspells, hroom⟩
  · rintro ⟨text, hspells, hroom⟩
    refine ⟨⟨text, (hiff text).2 hspells, hroom⟩, fun _ hn => ?_, fun _ _ hn => ?_,
      fun _ _ hn => ?_⟩
    all_goals
      simp only at hn
      omega

/-- The cut is in front of the data.  The record adds nothing, and the cursor comes behind the
cut, and not behind the record. -/
lemma CutAt.exists_round_early (h : CutAt full cut n) (hr : Expected r)
    (hat : HasAt full p r.wire) (hend : p + r.wire.length ≤ 1024) (hn : n < p + 12)
    (hfull : Round full p q o) {text : List UInt8} (howner : Spells cut p text)
    (hroom : text.length ≤ 128) : ∃ q', Round cut p q' none ∧ n ≤ q' ∧ q' ≤ p + r.wire.length := by
  have hsize := h.size
  have hwire := Record.length_wire hr.1
  have hnum := r.toNat_length
  obtain ⟨htype, hlen⟩ := r.hasAt_type_length hr.1 hat
  obtain ⟨t, ht, htle, hteq, htzero⟩ := h.exists_be16 htype (by omega)
  obtain ⟨d, hd, hdle, -, hdzero⟩ := h.exists_be16 hlen (by omega)
  have head : Head cut p text t d := ⟨howner, hroom, ht, hd⟩
  rw [hnum] at hdle
  have hd4 : d.toNat ≠ 4 := by
    intro h4
    have hmod := hdzero (by omega)
    rw [h4] at hmod
    cases hmod
  by_cases hcut : p + 2 + 1 < n
  · obtain rfl := hteq hcut
    rcases hr.2 with hhost | hcname
    · rw [hhost] at head
      exact ⟨_, .otherLength head hd4, by omega, by omega⟩
    · -- the canonical name is behind the cut
      obtain ⟨-, -, -, target, htarget, -⟩ := (round_cname_iff hr htype hlen hcname).1 hfull
      have hlt := htarget.lt_length
      rw [hcname] at head
      refine ⟨_, .cname head (.root (h.zero (p + 12) hn.le (by omega))) (Nat.zero_le _), ?_, ?_⟩
      · omega
      · omega
  · -- the type is read as 0
    have hmod := htzero (not_lt.1 hcut)
    have htype0 : t = 0 := by
      refine UInt16.toNat_inj.1 ?_
      rcases hr.2 with hhost | hcname
      · rw [hhost, show (dnsHost : UInt16).toNat = 1 from rfl] at htle
        exact show t.toNat = 0 by omega
      · rw [hcname, show (dnsCname : UInt16).toNat = 5 from rfl] at htle
        exact show t.toNat = 0 by omega
    rw [htype0] at head
    exact ⟨_, .otherType head (by decide) (by decide), by omega, by omega⟩

end Record

/-! ## The answer section -/

lemma toList_append_prefix_iff {o o' : Option DnsItem} {a b : List DnsItem}
    (h : o' = none ↔ o = none) : o'.toList ++ a <+: o.toList ++ b ↔ o' = o ∧ a <+: b := by
  cases o with
  | none =>
    rw [h.2 rfl]
    simp
  | some e =>
    cases o' with
    | none => exact absurd (h.1 rfl) (by simp)
    | some e' => simp [List.cons_prefix_cons]

/-- What a round adds on a record whose fixed fields are there depends on the record. -/
lemma eq_none_iff {r : Record} {o : Option DnsItem} (hr : Expected r)
    (htype : HasAt full (p + 2) (be16 r.type))
    (hlen : HasAt full (p + 10) (be16 (UInt16.ofNat r.rdata.length))) (h : Round full p q o) :
    o = none ↔ ¬ (r.type = dnsHost ∧ r.rdata.length = 4) := by
  rcases hr.cases with hcname | ⟨hhost, hne⟩ | ⟨hhost, h4⟩
  · obtain ⟨-, rfl, -⟩ := (round_cname_iff hr htype hlen hcname).1 h
    exact iff_of_true rfl fun hc => absurd (hcname.symm.trans hc.1) (by decide)
  · obtain ⟨-, rfl, -⟩ := (round_otherLength_iff hr htype hlen hhost hne).1 h
    exact iff_of_true rfl fun hc => hne hc.2
  · obtain ⟨-, text, -, -, -, netip, -, -, rfl⟩ := (round_address_iff hr htype hlen hhost h4).1 h
    exact iff_of_false (by simp) fun hc => hc ⟨hhost, h4⟩

lemma length_le_flatMap_wire {rs : List Record} (hrs : ∀ r ∈ rs, Expected r) :
    12 * rs.length ≤ (rs.flatMap Record.wire).length := by
  refine mul_length_le_length_flatMap fun r hr => ?_
  rw [Record.length_wire (hrs r hr).1]
  exact Nat.le_add_right _ _

lemma le_of_mem_placedFrom {rs : List Record} {off : ℕ} {x : ℕ × Record}
    (h : x ∈ placedFrom off rs) : off ≤ x.1 := by
  induction rs generalizing off with
  | nil => cases h
  | cons r rs ih =>
    rw [placedFrom, List.mem_cons] at h
    rcases h with rfl | h
    · exact le_rfl
    · exact (Nat.le_add_right _ _).trans (ih h)

section Step

variable {r : Record} {o : Option DnsItem} {rest : List DnsItem} {k : ℕ}

/-- A record with its fixed fields in front of the cut: the next one is looked for at the same
offset. -/
lemma CutAt.rounds_fields_iff (h : CutAt full cut n) (hr : Expected r) (hat : HasAt full p r.wire)
    (hend : p + r.wire.length ≤ 1024) (hn : p + 12 ≤ n) (hround : Round full p q o) :
    (∃ found' e', Rounds cut (k + 1) p found' e' ∧ found' <+: o.toList ++ rest) ↔
      Survives full cut n (p, r) ∧
        ∃ found' e', Rounds cut k (p + r.wire.length) found' e' ∧ found' <+: rest := by
  obtain ⟨htype, hlen⟩ := r.hasAt_type_length hr.1 hat
  have htype' := h.hasAt htype (by rw [length_be16]; omega)
  have hlen' := h.hasAt hlen (by rw [length_be16]; omega)
  rw [← h.round_iff_survives hr hat hend hn hround]
  obtain rfl := ((round_iff hr htype hlen).1 hround).1
  constructor
  · rintro ⟨found', e', hrounds', hprefix⟩
    obtain ⟨q', o', rest', hround', hrest', rfl⟩ := rounds_succ_iff.1 hrounds'
    obtain rfl := ((round_iff hr htype' hlen').1 hround').1
    have hnone := (eq_none_iff hr htype' hlen' hround').trans
      (eq_none_iff hr htype hlen hround).symm
    obtain ⟨rfl, htail⟩ := (toList_append_prefix_iff hnone).1 hprefix
    exact ⟨hround', rest', e', hrest', htail⟩
  · rintro ⟨hround', rest', e', hrest', hprefix⟩
    exact ⟨_, e', .succ hround' hrest', (List.prefix_append_right_inj _).2 hprefix⟩

/-- A record of which fixed fields are missing: it adds nothing if its name is decoded, and behind
it there are zeros. -/
lemma CutAt.rounds_early_iff (h : CutAt full cut n) (hr : Expected r) (hat : HasAt full p r.wire)
    (hend : p + r.wire.length + 12 * k ≤ 1024) (hn : n < p + 12) (hround : Round full p q o) :
    (∃ found' e', Rounds cut (k + 1) p found' e' ∧ found' <+: o.toList ++ rest) ↔
      Survives full cut n (p, r) := by
  constructor
  · rintro ⟨found', e', hrounds', -⟩
    obtain ⟨q', o', rest', hround', -, -⟩ := rounds_succ_iff.1 hrounds'
    obtain ⟨text, type, m, head⟩ := hround'.exists_head
    exact ⟨⟨text, head.owner, head.room⟩, fun _ hle => absurd hle (not_le.2 hn),
      fun _ _ hle => absurd hle (not_le.2 hn), fun _ _ hle => absurd hle (not_le.2 hn)⟩
  · intro hs
    obtain ⟨text, hspells, hroom⟩ := hs.owner
    obtain ⟨q', hround', hnq, hle⟩ :=
      h.exists_round_early hr hat (by omega) hn hround hspells hroom
    exact ⟨_, _, .succ hround' (h.rounds_zero k hnq (by omega)), List.nil_prefix⟩

end Step

/-- Records behind the cut are none of those in front of it. -/
lemma forall_placedFrom_of_le {P : ℕ × Record → Prop} {rs : List Record} {off : ℕ}
    (hoff : n ≤ off) : ∀ x ∈ placedFrom off rs, x.1 < n → P x := by
  intro x hx hlt
  have hle := le_of_mem_placedFrom hx
  omega

/-- The answer loop on the cut response, by induction on the records. -/
lemma CutAt.rounds_iff (h : CutAt full cut n) {rs : List Record} (hrs : ∀ r ∈ rs, Expected r)
    {off : ℕ} (hat : HasAt full off (rs.flatMap Record.wire))
    (hend : off + (rs.flatMap Record.wire).length ≤ 1024) {found : List DnsItem} {e : ℕ}
    (hfull : Rounds full rs.length off found e) :
    (∃ found' e', Rounds cut rs.length off found' e' ∧ found' <+: found) ↔
      ∀ x ∈ placedFrom off rs, x.1 < n → Survives full cut n x := by
  induction rs generalizing off found with
  | nil =>
    refine iff_of_true ⟨[], off, .zero off, List.nil_prefix⟩ fun x hx => ?_
    cases hx
  | cons r rs ih =>
    by_cases hn : off < n
    · have hr := hrs r (by simp)
      have hrs' : ∀ r' ∈ rs, Expected r' := fun r' hr' => hrs r' (by simp [hr'])
      have hrest12 := length_le_flatMap_wire hrs'
      rw [List.flatMap_cons] at hat hend
      rw [List.length_append] at hend
      obtain ⟨hrec, hat'⟩ := hasAt_append_iff.1 hat
      obtain ⟨q, o, rest, hround, hrounds, rfl⟩ := rounds_succ_iff.1 hfull
      rw [placedFrom, List.forall_mem_cons, forall_prop_of_true hn]
      by_cases hcut : off + 12 ≤ n
      · obtain ⟨htype, hlen⟩ := r.hasAt_type_length hr.1 hrec
        obtain rfl := ((round_iff hr htype hlen).1 hround).1
        rw [← ih hrs' hat' (by omega) hrounds]
        exact h.rounds_fields_iff hr hrec (by omega) hcut hround
      · -- the other records are behind the cut
        have hwire := Record.length_wire hr.1
        rw [and_iff_left (forall_placedFrom_of_le (by omega))]
        exact h.rounds_early_iff hr hrec (by omega) (not_le.1 hcut) hround
    · have hzero := h.rounds_zero (r :: rs).length (not_lt.1 hn)
        (by have h12 := length_le_flatMap_wire hrs; omega)
      exact iff_of_true ⟨[], _, hzero, List.nil_prefix⟩ (forall_placedFrom_of_le (not_lt.1 hn))

/-! ## The whole response -/

/-- The receive buffer with only the first `n` bytes of a message in it. -/
def Message.cutBuffer (m : Message) (n : ℕ) : List UInt8 :=
  m.wire.take n ++ List.replicate (1024 - n) 0

lemma Message.cutAt {m : Message} (hsize : m.wire.length ≤ 1024) (hn : n ≤ m.wire.length) :
    CutAt m.buffer (m.cutBuffer n) n := by
  have htake : (m.wire.take n).length = n := List.length_take_of_le hn
  refine ⟨?_, fun i hi => ?_, fun i hi hlt => ?_⟩
  · rw [Message.buffer, List.length_append, List.length_replicate]
    omega
  · rw [Message.cutBuffer, List.getElem?_append_left (by omega), List.getElem?_take, if_pos hi,
      Message.buffer, List.getElem?_append_left (by omega)]
  · rw [Message.cutBuffer, List.getElem?_append_right (by omega), List.getElem?_replicate,
      if_pos (by omega)]

/-- The way to the answers of the cut response: as in the whole one, or the cursor is behind the
cut. -/
lemma CutAt.starts (h : CutAt full cut n) {querys answers start : ℕ}
    (hstarts : Starts full querys answers start) (hq : querys < 256) (ha : answers < 256)
    (hend : start ≤ 1024) :
    ∃ querys' answers' start', Starts cut querys' answers' start' ∧ answers' ≤ answers ∧
      start' ≤ start ∧ (start' = start ∨ n ≤ start') ∧ (8 ≤ n → answers' = answers) := by
  obtain ⟨⟨qd, hqd, rfl⟩, ⟨an, han, rfl⟩, hskips⟩ := hstarts
  obtain ⟨qd', hqd', hqle, hqeq, hqzero⟩ := h.exists_be16 hqd (by decide)
  obtain ⟨an', han', hale, haeq, -⟩ := h.exists_be16 han (by decide)
  have hanswers : 8 ≤ n → an'.toNat = an.toNat := fun hn => by rw [haeq (by omega)]
  by_cases hcut : 4 + 1 < n
  · obtain rfl := hqeq hcut
    obtain ⟨start', hskips', hle, hcases⟩ := h.skips hskips hend
    exact ⟨_, _, start', ⟨⟨_, hqd', rfl⟩, ⟨_, han', rfl⟩, hskips'⟩, hale, hle, hcases, hanswers⟩
  · -- no question is announced
    have hmod := hqzero (not_lt.1 hcut)
    have hzero : qd'.toNat = 0 := by omega
    have hle := hskips.le
    refine ⟨0, _, 12, ⟨⟨_, hqd', hzero⟩, ⟨_, han', rfl⟩, .zero 12⟩, hale, by omega,
      Or.inr (by omega), hanswers⟩

/-- **Cut responses.**  Take a response of at most 1024 bytes with uncompressed questions, whose
answers are host addresses and canonical names with two-byte owner fields, and for which a list
is returned.  What is returned for its first `n` bytes is a prefix of this list, exactly if each
answer that begins in front of the cut survives it. -/
theorem cut_prefix_iff {m : Message} (hsize : m.wire.length ≤ 1024)
    (hl : ∀ x ∈ m.questions, ∀ l ∈ x.labels, LabelOk l) (hanswers : ∀ r ∈ m.answers, Expected r)
    {found : List DnsItem} (hfull : Returns m.buffer found) (hn : n ≤ m.wire.length) :
    (∃ found', Returns (m.cutBuffer n) found' ∧ found' <+: found) ↔
      ∀ x ∈ m.placed, x.1 < n → Survives m.buffer (m.cutBuffer n) n x := by
  have h := m.cutAt hsize hn
  have hstarts : Starts m.buffer _ _ _ := m.starts hsize hl _
  obtain ⟨e, hrounds⟩ := (Message.returns_buffer_iff hsize hl).1 hfull
  have hat : HasAt m.buffer _ _ := (m.hasAt_wire _).2.2
  have h12 := length_le_flatMap_wire hanswers
  have hlen : m.wire.length
      = 12 + m.questionSection.length + (m.answers.flatMap Record.wire).length := by
    rw [Message.wire, List.length_append, List.length_append, length_header, Nat.add_assoc]
  obtain ⟨hq256, ha256⟩ := m.counts_lt hsize
  by_cases hcut : n < 12 + m.questionSection.length
  · -- the cut is in the header or in the questions: no answer is in front of it
    obtain ⟨querys', answers', start', hstarts', hale, hle, hcases, -⟩ :=
      h.starts hstarts hq256 ha256 (by omega)
    have hzero := h.rounds_zero answers' (show n ≤ start' by omega) (by omega)
    exact iff_of_true ⟨[], hzero.returns hstarts', List.nil_prefix⟩
      (forall_placedFrom_of_le (by omega))
  · obtain ⟨querys', answers', start', hstarts', -, hle, hcases, heq⟩ :=
      h.starts hstarts hq256 ha256 (by omega)
    obtain rfl : start' = 12 + m.questionSection.length := by omega
    obtain rfl := heq (by omega)
    refine Iff.trans ?_ (h.rounds_iff hanswers hat (by omega) hrounds)
    constructor
    · rintro ⟨found', hreturns, hprefix⟩
      obtain ⟨querys₂, answers₂, start₂, e', hstarts₂, hrounds'⟩ := returns_iff.1 hreturns
      obtain ⟨rfl, rfl⟩ := hstarts'.unique hstarts₂
      exact ⟨found', e', hrounds', hprefix⟩
    · rintro ⟨found', e', hrounds', hprefix⟩
      exact ⟨found', hrounds'.returns hstarts', hprefix⟩

/-- The text of the owner of the address in `sampleMessage`. -/
def sampleOwner : List UInt8 := [98, 46, 97]

lemma returns_sample :
    Returns sampleMessage.buffer [⟨some sampleOwner, some (dottedQuad [10, 0, 0, 7])⟩] :=
  @returns_of_dnsParseResponse _ 10 _ [DnsItem.null] (by decide +kernel)

lemma returns_cut_sample : Returns (sampleMessage.cutBuffer 50)
    [⟨some sampleOwner, some (dottedQuad [10, 0, 0, 0])⟩] :=
  @returns_of_dnsParseResponse _ 10 _ [DnsItem.null] (by decide +kernel)

/-- `cut_prefix_iff` for `sampleMessage` without its last byte. -/
theorem cut_prefix_sample :
    (∃ found', Returns (sampleMessage.cutBuffer 50) found' ∧
        found' <+: [⟨some sampleOwner, some (dottedQuad [10, 0, 0, 7])⟩]) ↔
      ∀ x ∈ sampleMessage.placed, x.1 < 50 →
        Survives sampleMessage.buffer (sampleMessage.cutBuffer 50) 50 x :=
  cut_prefix_iff (by decide) sampleMessage_wellFormed.labels (by unfold Expected; decide)
    returns_sample (by decide)

/-- Without its last byte the address 10.0.0.7 is entered as 10.0.0.0. -/
theorem inventedAddress :
    WellFormed sampleMessage sampleNames ∧ 50 ≤ sampleMessage.wire.length ∧
      Returns sampleMessage.buffer [⟨some sampleOwner, some (dottedQuad [10, 0, 0, 7])⟩] ∧
      Returns (sampleMessage.cutBuffer 50)
        [⟨some sampleOwner, some (dottedQuad [10, 0, 0, 0])⟩] ∧
      ¬ ∃ found', Returns (sampleMessage.cutBuffer 50) found' ∧
        found' <+: [⟨some sampleOwner, some (dottedQuad [10, 0, 0, 7])⟩] := by
  refine ⟨sampleMessage_wellFormed, by decide, returns_sample, returns_cut_sample, ?_⟩
  rintro ⟨found', hreturns, hprefix⟩
  obtain rfl := hreturns.unique returns_cut_sample
  exact absurd hprefix (by decide)

end CppExample.Dns
