/-
# The answer loop on any bytes

The bytes of the buffer decide what `dns_parse_response` does.  `Starts` is the way over the
questions to the first answer, `Round` is a round of the answer loop with the entry that it
adds, and `Rounds` a sequence of rounds.

With a budget that is large enough the code does what these relations say.  Conversely,
whatever budget it has, what the code has done successfully is one of them; so
`dns_parse_response` returns a list exactly if there are these rounds: `returns_iff`.
-/
import CppExample.Dns.Message

namespace CppExample.Dns
open Lib

variable {buf : List UInt8} {p q : ℕ}

/-! ## The way to the answers -/

/-- The cursor of the skip loop goes over a name. -/
inductive SkipsName (buf : List UInt8) : ℕ → ℕ → Prop
  | root {p : ℕ} (h : buf[p]? = some 0) : SkipsName buf p (p + 1)
  | label {p q : ℕ} {flag : UInt8} (h : buf[p]? = some flag) (h0 : flag ≠ 0)
      (rest : SkipsName buf (p + (flag.toNat + 1)) q) : SkipsName buf p q

/-- The cursor goes over as many questions. -/
inductive Skips (buf : List UInt8) : ℕ → ℕ → ℕ → Prop
  | zero (p : ℕ) : Skips buf 0 p p
  | succ {k p q r : ℕ} (h : SkipsName buf p q) (rest : Skips buf k (q + 4) r) :
      Skips buf (k + 1) p r

/-- The header announces as many questions and answers, and the questions end in front of
`start`. -/
structure Starts (buf : List UInt8) (querys answers start : ℕ) : Prop where
  qdcount : ∃ x : UInt16, HasAt buf 4 (be16 x) ∧ x.toNat = querys
  ancount : ∃ x : UInt16, HasAt buf 6 (be16 x) ∧ x.toNat = answers
  skips : Skips buf querys 12 start

lemma SkipsName.skipName_eq (h : SkipsName buf p q) :
    ∃ n, ∀ fuel, n ≤ fuel → skipName fuel buf p = .ok q := by
  induction h with
  | root h =>
    refine ⟨1, fun fuel hfuel => ?_⟩
    obtain ⟨fuel, rfl⟩ := Nat.exists_eq_add_of_le' hfuel
    rw [skipName, load_of_getElem? h]
    rfl
  | label h h0 rest ih =>
    obtain ⟨n, hn⟩ := ih
    refine ⟨n + 1, fun fuel hfuel => ?_⟩
    obtain ⟨fuel, rfl⟩ := Nat.exists_eq_add_of_le' (Nat.le_of_add_left_le hfuel)
    rw [skipName, load_of_getElem? h, ok_bind]
    simp only [h0, if_false]
    exact hn fuel (by omega)

lemma skipsName_of_skipName {fuel : ℕ} (h : skipName fuel buf p = .ok q) : SkipsName buf p q := by
  induction fuel generalizing p with
  | zero => cases h
  | succ fuel ih =>
    obtain ⟨flag, hflag, h⟩ := bind_eq_ok.1 (show (load buf p >>= _) = _ from h)
    have hflag := getElem?_of_load hflag
    dsimp only at h
    split at h
    · next h0 =>
      obtain rfl := Except.ok.inj h
      rw [h0] at hflag
      have hlen : (flag.toNat + 1) = 1 := by rw [h0]; rfl
      rw [hlen]
      exact .root hflag
    · next h0 => exact .label hflag h0 (ih h)

lemma SkipsName.unique {q' : ℕ} (h : SkipsName buf p q) (h' : SkipsName buf p q') : q = q' :=
  eq_of_enough_fuel h.skipName_eq h'.skipName_eq

lemma Skips.skipQuestions_eq {k : ℕ} (h : Skips buf k p q) :
    ∃ n, ∀ fuel, n ≤ fuel → skipQuestions fuel buf k p = .ok q := by
  induction h with
  | zero p => exact ⟨0, fun fuel _ => rfl⟩
  | succ h rest ih =>
    obtain ⟨n, hn⟩ := h.skipName_eq
    obtain ⟨m, hm⟩ := ih
    refine ⟨max n m, fun fuel hfuel => ?_⟩
    rw [skipQuestions, hn fuel (le_of_max_le_left hfuel), ok_bind]
    exact hm fuel (le_of_max_le_right hfuel)

lemma skips_of_skipQuestions {fuel k : ℕ} (h : skipQuestions fuel buf k p = .ok q) :
    Skips buf k p q := by
  induction k generalizing p with
  | zero =>
    obtain rfl := Except.ok.inj h
    exact .zero p
  | succ k ih =>
    obtain ⟨ptr, hname, hrest⟩ := bind_eq_ok.1 (show (skipName fuel buf p >>= _) = _ from h)
    exact .succ (skipsName_of_skipName hname) (ih hrest)

lemma Starts.parseHead_eq {querys answers start : ℕ} (h : Starts buf querys answers start) :
    ∃ n, ∀ fuel, n ≤ fuel → parseHead fuel buf = .ok (querys, answers, start) := by
  obtain ⟨⟨qd, hqd, rfl⟩, ⟨an, han, rfl⟩, hskips⟩ := h
  obtain ⟨a, ha, rfl⟩ := loadShort_be16 han
  obtain ⟨d, hd, rfl⟩ := loadShort_be16 hqd
  obtain ⟨n, hn⟩ := hskips.skipQuestions_eq
  refine ⟨n, fun fuel hfuel => ?_⟩
  rw [parseHead]
  simp only [Nat.zero_add, Nat.reduceAdd, hd, ha, ok_bind, hn fuel hfuel]
  rfl

lemma starts_of_parseHead {fuel querys answers start : ℕ}
    (h : parseHead fuel buf = .ok (querys, answers, start)) : Starts buf querys answers start := by
  rw [parseHead] at h
  obtain ⟨d, hd, h⟩ := bind_eq_ok.1 h
  obtain ⟨a, ha, h⟩ := bind_eq_ok.1 h
  obtain ⟨ptr, hskips, h⟩ := bind_eq_ok.1 h
  cases h
  exact ⟨⟨_, hasAt_of_loadShort hd, rfl⟩, ⟨_, hasAt_of_loadShort ha, rfl⟩,
    skips_of_skipQuestions hskips⟩

lemma Starts.unique {querys answers start querys' answers' start' : ℕ}
    (h : Starts buf querys answers start) (h' : Starts buf querys' answers' start') :
    answers = answers' ∧ start = start' := by
  have heq := eq_of_enough_fuel h.parseHead_eq h'.parseHead_eq
  rw [Prod.mk.injEq, Prod.mk.injEq] at heq
  exact heq.2

/-! ## One round -/

/-- What a round of the answer loop does with the data of a record, at `ptr`. -/
def recordData (fuel : ℕ) (buffer : List UInt8) (ptr cnt : ℕ) (list : List DnsItem)
    (aname : List UInt8) (type : UInt16) (datalen : ℕ) :
    Except Fault (ℕ × ℕ × List DnsItem) :=
  if type = dnsCname then do
    let _cname ← dnsParseName fuel buffer ptr (List.replicate 128 0) 0
    return (ptr + datalen, cnt, list)
  else if type = dnsHost then
    if datalen = 4 then do
      let netip ← slice buffer ptr datalen
      let ip ← inetNtop netip (List.replicate 20 0) 16
      let domain ← cstr aname
      let ip ← cstr ip
      let list ← store list cnt [⟨some domain, some ip⟩]
      return (ptr + datalen, cnt + 1, list)
    else
      return (ptr + datalen, cnt, list)
  else
    return (ptr, cnt, list)

/-- A round comes to the data when the owner is decoded and the ten bytes of the fixed fields
are there. -/
lemma parseAnswer_fields {off fuel len : ℕ} {aname : List UInt8} {type n : UInt16}
    (hname : dnsParseName fuel buf off (List.replicate 128 0) 0 = .ok (aname, len))
    (htype : HasAt buf (off + 2) (be16 type)) (hlen : HasAt buf (off + 10) (be16 n)) (cnt : ℕ)
    (list : List DnsItem) :
    parseAnswer fuel buf off cnt list
      = recordData fuel buf (off + 12) cnt list aname type n.toNat := by
  have hend := hlen.length_le (by simp [be16])
  rw [length_be16] at hend
  obtain ⟨t, ht, rfl⟩ := loadShort_be16 htype
  obtain ⟨d, hd, rfl⟩ := loadShort_be16 hlen
  obtain ⟨c, hc⟩ := @loadShort_of_lt buf (off + 2 + 2) (by omega)
  obtain ⟨l, hl⟩ := @loadShort_of_lt buf (off + 2 + 2 + 2) (by omega)
  rw [parseAnswer, hname, ok_bind]
  simp only [ht, hc, hl, show off + 2 + 2 + 2 + 4 = off + 10 from rfl, hd, ok_bind]
  rfl

/-- The owner of a record, for which there is room in `aname`, and its fixed fields. -/
structure Head (buf : List UInt8) (p : ℕ) (text : List UInt8) (type n : UInt16) : Prop where
  owner : Spells buf p text
  room : text.length ≤ 128
  type : HasAt buf (p + 2) (be16 type)
  length : HasAt buf (p + 10) (be16 n)

/-- A round of the answer loop on the record at `p`: where the next record is looked for, and
the entry that is added to the list. -/
inductive Round (buf : List UInt8) (p : ℕ) : ℕ → Option DnsItem → Prop
  | cname {text target : List UInt8} {n : UInt16} (head : Head buf p text dnsCname n)
      (htarget : Spells buf (p + 12) target) (hroom : target.length ≤ 128) :
      Round buf p (p + 12 + n.toNat) none
  /-- The name that is entered ends at its first NUL, which must be in `aname`. -/
  | address {text netip : List UInt8} (head : Head buf p text dnsHost 4)
      (hdata : HasAt buf (p + 12) netip) (h4 : netip.length = 4)
      (hnul : 0 < 128 - text.length ∨ 0 ∈ text) :
      Round buf p (p + 12 + 4) (some ⟨some (cutAtNul text), some (dottedQuad netip)⟩)
  | otherLength {text : List UInt8} {n : UInt16} (head : Head buf p text dnsHost n)
      (hn : n.toNat ≠ 4) : Round buf p (p + 12 + n.toNat) none
  /-- The cursor stays in front of the data. -/
  | otherType {text : List UInt8} {type n : UInt16} (head : Head buf p text type n)
      (hcname : type ≠ dnsCname) (hhost : type ≠ dnsHost) : Round buf p (p + 12) none

section Round

variable {text : List UInt8} {type n : UInt16}

lemma Head.parseAnswer_eq (h : Head buf p text type n) :
    ∃ k, ∀ fuel, k ≤ fuel → ∀ cnt list, parseAnswer fuel buf p cnt list
      = recordData fuel buf (p + 12) cnt list (text ++ List.replicate (128 - text.length) 0) type
          n.toNat := by
  obtain ⟨k, hk⟩ := h.owner.dnsParseName_eq
  exact ⟨k, fun fuel hfuel => parseAnswer_fields (hk fuel hfuel 128 h.room) h.type h.length⟩

lemma head_of_parseAnswer {fuel cnt : ℕ} {list : List DnsItem} {x : ℕ × ℕ × List DnsItem}
    (h : parseAnswer fuel buf p cnt list = .ok x) :
    ∃ text type n, Head buf p text type n ∧
      recordData fuel buf (p + 12) cnt list (text ++ List.replicate (128 - text.length) 0) type
        n.toNat = .ok x := by
  have hrun := h
  rw [parseAnswer] at h
  obtain ⟨⟨aname, len⟩, hname, h⟩ := bind_eq_ok.1 h
  obtain ⟨t, ht, h⟩ := bind_eq_ok.1 h
  obtain ⟨c, -, h⟩ := bind_eq_ok.1 h
  obtain ⟨l, -, h⟩ := bind_eq_ok.1 h
  obtain ⟨d, hd, -⟩ := bind_eq_ok.1 h
  obtain ⟨text, hspells, hroom, rfl, rfl⟩ := spells_of_dnsParseName hname
  have htype := hasAt_of_loadShort ht
  have hlen : HasAt buf (p + 10) (be16 (htons d)) := hasAt_of_loadShort hd
  rw [parseAnswer_fields hname htype hlen] at hrun
  exact ⟨text, _, _, ⟨hspells, hroom, htype, hlen⟩, hrun⟩

/-- With a budget that is large enough, the round puts its entry behind those that are filled
already. -/
lemma Round.parseAnswer_eq {o : Option DnsItem} (h : Round buf p q o) :
    ∃ k, ∀ fuel, k ≤ fuel → ∀ (done : List DnsItem) (m : ℕ), 1 ≤ m →
      parseAnswer fuel buf p done.length (done ++ List.replicate m DnsItem.null)
        = .ok (q, (done ++ o.toList).length,
            done ++ o.toList ++ List.replicate (m - o.toList.length) DnsItem.null) := by
  cases h with
  | cname head htarget hroom =>
    obtain ⟨k, hk⟩ := head.parseAnswer_eq
    obtain ⟨k', hk'⟩ := htarget.dnsParseName_eq
    refine ⟨max k k', fun fuel hfuel done m _ => ?_⟩
    rw [hk fuel (le_of_max_le_left hfuel), recordData, if_pos rfl,
      hk' fuel (le_of_max_le_right hfuel) 128 hroom]
    simp [pure, Except.pure]
  | @address text netip head hdata h4 hnul =>
    obtain ⟨k, hk⟩ := head.parseAnswer_eq
    refine ⟨k, fun fuel hfuel done m hm => ?_⟩
    have hslice : slice buf (p + 12) 4 = .ok netip := by
      rw [← h4]
      exact hdata.slice (List.ne_nil_of_length_pos (by omega))
    obtain ⟨ip, hip, hcstr⟩ := inetNtop_cstr h4
    have hstore : store (done ++ List.replicate m DnsItem.null) done.length
        [⟨some (cutAtNul text), some (dottedQuad netip)⟩] = _ := store_append_replicate rfl hm
    rw [hk fuel hfuel, recordData, if_neg (by decide), if_pos rfl]
    simp only [show (4 : UInt16).toNat = 4 from rfl, if_true, hslice, hip, hcstr,
      cstr_append_replicate text hnul, hstore, ok_bind, Option.toList_some, List.length_append,
      List.length_singleton]
    rfl
  | otherLength head hn =>
    obtain ⟨k, hk⟩ := head.parseAnswer_eq
    refine ⟨k, fun fuel hfuel done m _ => ?_⟩
    rw [hk fuel hfuel, recordData, if_neg (by decide), if_pos rfl, if_neg hn]
    simp [pure, Except.pure]
  | otherType head hcname hhost =>
    obtain ⟨k, hk⟩ := head.parseAnswer_eq
    refine ⟨k, fun fuel hfuel done m _ => ?_⟩
    rw [hk fuel hfuel, recordData, if_neg hcname, if_neg hhost]
    simp [pure, Except.pure]

/-- A round that has succeeded, and what it has stored. -/
lemma round_of_parseAnswer {fuel cnt c : ℕ} {list l : List DnsItem} (hcnt : cnt ≤ list.length)
    (h : parseAnswer fuel buf p cnt list = .ok (q, c, l)) :
    ∃ o, Round buf p q o ∧ c = cnt + o.toList.length ∧ store list cnt o.toList = .ok l := by
  obtain ⟨text, type, n, head, h⟩ := head_of_parseAnswer h
  rw [recordData] at h
  split at h
  · next hcname =>
    subst hcname
    obtain ⟨⟨cname, len⟩, hname, h⟩ := bind_eq_ok.1 h
    cases h
    obtain ⟨target, htarget, hroom, -, -⟩ := spells_of_dnsParseName hname
    exact ⟨none, .cname head htarget hroom, rfl, store_nil hcnt⟩
  · next hcname =>
    split at h
    · next hhost =>
      subst hhost
      split at h
      · next h4 =>
        obtain ⟨netip, hslice, h⟩ := bind_eq_ok.1 h
        obtain ⟨ip, hip, h⟩ := bind_eq_ok.1 h
        obtain ⟨domain, hdomain, h⟩ := bind_eq_ok.1 h
        obtain ⟨s, hs, h⟩ := bind_eq_ok.1 h
        obtain ⟨list', hstore, h⟩ := bind_eq_ok.1 h
        cases h
        obtain rfl : n = 4 := UInt16.toNat_inj.1 h4
        have hnetip := (of_slice hslice).1
        obtain ⟨hnul, rfl⟩ := of_cstr hdomain
        obtain ⟨ip', hip', hs'⟩ := inetNtop_cstr hnetip
        obtain rfl := Except.ok.inj (hip.symm.trans hip')
        obtain rfl := Except.ok.inj (hs.symm.trans hs')
        exact ⟨_, .address head (hasAt_of_slice hslice) hnetip hnul, rfl, hstore⟩
      · next h4 =>
        cases h
        exact ⟨none, .otherLength head h4, rfl, store_nil hcnt⟩
    · next hhost =>
      cases h
      exact ⟨none, .otherType head hcname hhost, rfl, store_nil hcnt⟩

lemma Round.exists_head {o : Option DnsItem} (h : Round buf p q o) :
    ∃ text type n, Head buf p text type n := by
  cases h with
  | cname head _ _ => exact ⟨_, _, _, head⟩
  | address head _ _ _ => exact ⟨_, _, _, head⟩
  | otherLength head _ => exact ⟨_, _, _, head⟩
  | otherType head _ _ => exact ⟨_, _, _, head⟩

/-- A round depends on the bytes alone. -/
lemma Round.unique {q' : ℕ} {o o' : Option DnsItem} (h : Round buf p q o)
    (h' : Round buf p q' o') : q = q' ∧ o = o' := by
  obtain ⟨n, hn⟩ := h.parseAnswer_eq
  obtain ⟨n', hn'⟩ := h'.parseAnswer_eq
  have heq := Except.ok.inj ((hn (max n n') (le_max_left n n') [] 1 le_rfl).symm.trans
    (hn' (max n n') (le_max_right n n') [] 1 le_rfl))
  rw [Prod.mk.injEq, Prod.mk.injEq] at heq
  obtain ⟨hq, hlen, hlist⟩ := heq
  have hentry : o.toList = o'.toList := (List.append_inj hlist hlen).1
  refine ⟨hq, ?_⟩
  cases o' with
  | none => exact Option.toList_eq_nil_iff.1 hentry
  | some e => exact Option.toList_eq_singleton_iff.1 hentry

end Round

/-! ## The answer loop -/

/-- As many rounds from one record to another, and the entries that they add. -/
inductive Rounds (buf : List UInt8) : ℕ → ℕ → List DnsItem → ℕ → Prop
  | zero (p : ℕ) : Rounds buf 0 p [] p
  | succ {k p q r : ℕ} {o : Option DnsItem} {found : List DnsItem} (h : Round buf p q o)
      (rest : Rounds buf k q found r) : Rounds buf (k + 1) p (o.toList ++ found) r

lemma rounds_succ_iff {k r : ℕ} {found : List DnsItem} :
    Rounds buf (k + 1) p found r ↔ ∃ q o rest, Round buf p q o ∧ Rounds buf k q rest r ∧
      found = o.toList ++ rest := by
  constructor
  · intro h
    cases h with
    | succ h rest => exact ⟨_, _, _, h, rest, rfl⟩
  · rintro ⟨q, o, rest, h, hrest, rfl⟩
    exact .succ h hrest

/-- Some rounds, and others behind them. -/
lemma rounds_add_iff {a b r : ℕ} {found : List DnsItem} :
    Rounds buf (a + b) p found r ↔ ∃ q f g, Rounds buf a p f q ∧ Rounds buf b q g r ∧
      found = f ++ g := by
  induction a generalizing p found with
  | zero =>
    rw [Nat.zero_add]
    constructor
    · intro h
      exact ⟨p, [], found, .zero p, h, rfl⟩
    · rintro ⟨q, f, g, hf, hg, rfl⟩
      cases hf
      exact hg
  | succ a ih =>
    rw [Nat.succ_add, rounds_succ_iff]
    constructor
    · rintro ⟨q, o, rest, h, hrest, rfl⟩
      obtain ⟨q', f, g, hf, hg, rfl⟩ := ih.1 hrest
      exact ⟨q', o.toList ++ f, g, .succ h hf, hg, (List.append_assoc _ _ _).symm⟩
    · rintro ⟨q', f, g, hf, hg, rfl⟩
      obtain ⟨q, o, rest, h, hrest, rfl⟩ := rounds_succ_iff.1 hf
      exact ⟨q, o, rest ++ g, h, ih.2 ⟨q', rest, g, hrest, hg, rfl⟩, List.append_assoc _ _ _⟩

/-- Rounds depend on the bytes alone. -/
lemma Rounds.unique {k q' : ℕ} {found found' : List DnsItem} (h : Rounds buf k p found q)
    (h' : Rounds buf k p found' q') : found = found' ∧ q = q' := by
  induction h generalizing found' with
  | zero p =>
    cases h'
    exact ⟨rfl, rfl⟩
  | succ h rest ih =>
    obtain ⟨q₁, o₁, rest₁, h₁, hrest₁, rfl⟩ := rounds_succ_iff.1 h'
    obtain ⟨rfl, rfl⟩ := h.unique h₁
    obtain ⟨rfl, rfl⟩ := ih hrest₁
    exact ⟨rfl, rfl⟩

/-- The entries stand behind those that are filled already. -/
lemma Rounds.parseAnswers_eq {k : ℕ} {found : List DnsItem} (h : Rounds buf k p found q) :
    ∃ n, ∀ fuel, n ≤ fuel → ∀ (done : List DnsItem) (m : ℕ), k ≤ m →
      parseAnswers fuel buf k p done.length (done ++ List.replicate m DnsItem.null)
        = .ok (q, (done ++ found).length,
            done ++ found ++ List.replicate (m - found.length) DnsItem.null) := by
  induction h with
  | zero p =>
    refine ⟨0, fun fuel _ done m _ => ?_⟩
    simp [parseAnswers, pure, Except.pure]
  | @succ k p q r o found h rest ih =>
    obtain ⟨n₁, hn₁⟩ := h.parseAnswer_eq
    obtain ⟨n₂, hn₂⟩ := ih
    refine ⟨max n₁ n₂, fun fuel hfuel done m hm => ?_⟩
    have hle : o.toList.length ≤ 1 := Option.length_toList_le
    have hloop := hn₂ fuel (le_of_max_le_right hfuel) (done ++ o.toList) (m - o.toList.length)
      (by omega)
    rw [parseAnswers, hn₁ fuel (le_of_max_le_left hfuel) done m (by omega), ok_bind]
    dsimp only
    rw [hloop]
    simp [Nat.sub_sub]

/-- Rounds that have succeeded, and what they have stored. -/
lemma rounds_of_parseAnswers {fuel k cnt c : ℕ} {list l : List DnsItem} (hcnt : cnt ≤ list.length)
    (h : parseAnswers fuel buf k p cnt list = .ok (q, c, l)) :
    ∃ found, Rounds buf k p found q ∧ c = cnt + found.length ∧ store list cnt found = .ok l := by
  induction k generalizing p cnt list with
  | zero =>
    cases h
    exact ⟨[], .zero _, rfl, store_nil hcnt⟩
  | succ k ih =>
    obtain ⟨⟨ptr, c₁, l₁⟩, hone, hrest⟩ := bind_eq_ok.1
      (show (parseAnswer fuel buf p cnt list >>= _) = _ from h)
    obtain ⟨o, hround, rfl, hstore⟩ := round_of_parseAnswer hcnt hone
    have hle := le_of_store hstore
    rw [← length_of_store hstore] at hle
    obtain ⟨found, hrounds, rfl, hstore'⟩ := ih hle hrest
    refine ⟨_, .succ hround hrounds, ?_, store_store hstore hstore'⟩
    rw [List.length_append, Nat.add_assoc]

/-! ## What the function returns -/

/-- `dns_parse_response` ends, and the entries of its list that it counts are `found`. -/
def Returns (buf : List UInt8) (found : List DnsItem) : Prop :=
  ∃ n, ∀ fuel, n ≤ fuel → ∃ rest,
    dnsParseResponse fuel true buf = .ok ((found.length : ℤ), some (found ++ rest))

lemma Returns.unique {found found' : List DnsItem} (h : Returns buf found)
    (h' : Returns buf found') : found = found' := by
  obtain ⟨n, hn⟩ := h
  obtain ⟨n', hn'⟩ := h'
  obtain ⟨rest, hrest⟩ := hn (max n n') (le_max_left n n')
  obtain ⟨rest', hrest'⟩ := hn' (max n n') (le_max_right n n')
  have heq := Except.ok.inj (hrest.symm.trans hrest')
  rw [Prod.mk.injEq, Option.some.injEq, Nat.cast_inj] at heq
  exact (List.append_inj heq.2 heq.1).1

/-- The list that is allocated has an entry for each announced answer. -/
lemma Rounds.dnsParseResponse_eq {querys answers start : ℕ} {found : List DnsItem}
    (hstarts : Starts buf querys answers start) (h : Rounds buf answers start found q) :
    ∃ n, ∀ fuel, n ≤ fuel → dnsParseResponse fuel true buf
      = .ok ((found.length : ℤ),
          some (found ++ List.replicate (answers - found.length) DnsItem.null)) := by
  obtain ⟨n, hn⟩ := hstarts.parseHead_eq
  obtain ⟨m, hm⟩ := h.parseAnswers_eq
  refine ⟨max n m, fun fuel hfuel => ?_⟩
  have hloop := hm fuel (le_of_max_le_right hfuel) [] answers le_rfl
  simp only [List.nil_append, List.length_nil] at hloop
  rw [dnsParseResponse, hn fuel (le_of_max_le_left hfuel)]
  simp only [ok_bind, if_true, hloop]
  rfl

lemma Rounds.returns {querys answers start : ℕ} {found : List DnsItem}
    (hstarts : Starts buf querys answers start) (h : Rounds buf answers start found q) :
    Returns buf found := by
  obtain ⟨n, hn⟩ := h.dnsParseResponse_eq hstarts
  exact ⟨n, fun fuel hfuel => ⟨_, hn fuel hfuel⟩⟩

/-- One run that returns a list shows the rounds. -/
lemma exists_rounds_of_dnsParseResponse {fuel : ℕ} {found rest : List DnsItem}
    (h : dnsParseResponse fuel true buf = .ok ((found.length : ℤ), some (found ++ rest))) :
    ∃ querys answers start r, Starts buf querys answers start ∧
      Rounds buf answers start found r := by
  rw [dnsParseResponse] at h
  obtain ⟨⟨querys, answers, start⟩, hhead, h⟩ := bind_eq_ok.1 h
  obtain ⟨⟨r, cnt, l⟩, hloop, h⟩ := bind_eq_ok.1 (show (_ >>= _) = _ from h)
  obtain ⟨found', hrounds, rfl, hstore⟩ := rounds_of_parseAnswers (Nat.zero_le _) hloop
  have heq := Except.ok.inj h
  rw [Prod.mk.injEq, Option.some.injEq, Nat.cast_inj, Nat.zero_add] at heq
  obtain ⟨hlen, rfl⟩ := heq
  obtain rfl : found = found' := HasAt.unique (hasAt_of_append [] found rest)
    (by simpa using hasAt_of_store hstore) hlen.symm
  exact ⟨querys, answers, start, r, starts_of_parseHead hhead, hrounds⟩

/-- **What is returned.**  The entries of the rounds that the bytes of the buffer lead
through. -/
theorem returns_iff {found : List DnsItem} :
    Returns buf found ↔
      ∃ querys answers start r, Starts buf querys answers start ∧
        Rounds buf answers start found r := by
  constructor
  · rintro ⟨n, hn⟩
    obtain ⟨rest, hrun⟩ := hn n le_rfl
    exact exists_rounds_of_dnsParseResponse hrun
  · rintro ⟨querys, answers, start, r, hstarts, hrounds⟩
    exact hrounds.returns hstarts

/-- One run that returns a list is enough. -/
lemma returns_of_dnsParseResponse {fuel : ℕ} {found rest : List DnsItem}
    (h : dnsParseResponse fuel true buf = .ok ((found.length : ℤ), some (found ++ rest))) :
    Returns buf found := returns_iff.2 (exists_rounds_of_dnsParseResponse h)

end CppExample.Dns
