/-
# Bounds-checked buffers

A C object that is accessed through a pointer is a list of cells together with an
offset into it.  Reads and writes are checked: an access outside the object does not
return a value but a `Fault`, so that "the program never leaves the object" is the
statement that its run does not fault.  Loops that need not terminate take a budget of
iterations and report `Fault.fuel` when it is used up.

The second half of the file is about the bytes found at an offset, `HasAt buf off xs`:
this is the form in which the layout of a message is handed to the code that reads it.
-/
import Mathlib.Data.List.Basic
import Mathlib.Tactic

namespace CppExample.Lib

/-- The ways in which a run can go wrong. -/
inductive Fault where
  /-- A read at an offset outside the object. -/
  | read (off : ℕ)
  /-- A write at an offset outside the object. -/
  | write (off : ℕ)
  /-- An access through a pointer that is null or points to no live object. -/
  | pointer
  /-- The budget of loop iterations is used up. -/
  | fuel
deriving DecidableEq, Repr

variable {α : Type*}

/-- A step that succeeds goes on with its result. -/
@[simp] lemma ok_bind.{u, v} {ε : Type u} {α β : Type v} (a : α) (f : α → Except ε β) :
    (Except.ok a >>= f) = f a := rfl

/-- A step and what follows it have both succeeded. -/
lemma bind_eq_ok.{u, v} {ε : Type u} {α β : Type v} {x : Except ε α} {f : α → Except ε β} {b : β} :
    x >>= f = .ok b ↔ ∃ a, x = .ok a ∧ f a = .ok b := by
  cases x with
  | error e => simp [bind, Except.bind]
  | ok a => simp

/-- Programs that begin with the same step. -/
lemma bind_congr_ok.{u, v} {ε : Type u} {α β : Type v} {x : Except ε α} {f g : α → Except ε β}
    (h : ∀ a, x = .ok a → f a = g a) : x >>= f = x >>= g := by
  cases x with
  | error e => rfl
  | ok a => exact h a rfl

/-- A program has one result, if it has the same with every budget that is large enough. -/
lemma eq_of_enough_fuel {run : ℕ → Except Fault α} {a b : α}
    (ha : ∃ n, ∀ fuel, n ≤ fuel → run fuel = .ok a)
    (hb : ∃ n, ∀ fuel, n ≤ fuel → run fuel = .ok b) : a = b := by
  obtain ⟨n, hn⟩ := ha
  obtain ⟨m, hm⟩ := hb
  have hmax := (hn (max n m) (le_max_left n m)).symm.trans (hm (max n m) (le_max_right n m))
  exact Except.ok.inj hmax

/-! ## Access -/

/-- Read the cell at offset `off`. -/
def load (buf : List α) (off : ℕ) : Except Fault α :=
  match buf[off]? with
  | some a => .ok a
  | none => .error (.read off)

/-- Read the `n` cells from offset `off` on. -/
def slice (buf : List α) (off n : ℕ) : Except Fault (List α) :=
  if off + n ≤ buf.length then .ok ((buf.drop off).take n) else .error (.read (off + n))

/-- Overwrite the cells from offset `off` on with `xs`. -/
def store (buf : List α) (off : ℕ) (xs : List α) : Except Fault (List α) :=
  if off + xs.length ≤ buf.length then
    .ok (buf.take off ++ xs ++ buf.drop (off + xs.length))
  else .error (.write (off + xs.length))

lemma load_of_getElem? {buf : List α} {off : ℕ} {a : α} (h : buf[off]? = some a) :
    load buf off = .ok a := by
  rw [load, h]

lemma getElem?_of_load {buf : List α} {off : ℕ} {a : α} (h : load buf off = .ok a) :
    buf[off]? = some a := by
  rw [load] at h
  split at h
  · next b hb =>
    obtain rfl := Except.ok.inj h
    exact hb
  · cases h

lemma store_of_le {buf : List α} {off : ℕ} {xs : List α} (h : off + xs.length ≤ buf.length) :
    store buf off xs = .ok (buf.take off ++ xs ++ buf.drop (off + xs.length)) := by
  rw [store, if_pos h]

/-- A write of one cell. -/
lemma store_singleton {buf : List α} {off : ℕ} (h : off < buf.length) (a : α) :
    store buf off [a] = .ok (buf.set off a) := by
  rw [store_of_le (show off + [a].length ≤ buf.length from h),
    List.set_eq_take_append_cons_drop, if_pos h, List.append_assoc]
  rfl

/-- Writing right behind a filled prefix, into a tail that is long enough, replaces the
head of that tail. -/
lemma store_append {pre tail xs : List α} {off : ℕ} (hoff : off = pre.length)
    (h : xs.length ≤ tail.length) :
    store (pre ++ tail) off xs = .ok (pre ++ xs ++ tail.drop xs.length) := by
  subst hoff
  rw [store_of_le (by simp only [List.length_append]; omega)]
  simp [List.drop_append]

/-- Writing behind a filled prefix into a tail of equal cells consumes as many of them. -/
lemma store_append_replicate {pre xs : List α} {off n : ℕ} {a : α} (hoff : off = pre.length)
    (h : xs.length ≤ n) :
    store (pre ++ List.replicate n a) off xs
      = .ok (pre ++ xs ++ List.replicate (n - xs.length) a) := by
  rw [store_append hoff (by simpa using h), List.drop_replicate]

lemma le_of_store {buf buf' xs : List α} {off : ℕ} (h : store buf off xs = .ok buf') :
    off + xs.length ≤ buf.length := by
  rw [store] at h
  split at h
  · next hle => exact hle
  · cases h

lemma store_nil {buf : List α} {off : ℕ} (h : off ≤ buf.length) :
    store buf off [] = .ok buf := by
  rw [store_of_le (by simpa using h)]
  simp

/-- Two writes, the second one right behind the first, are one write. -/
lemma store_store {buf buf₁ buf₂ xs ys : List α} {off : ℕ} (h₁ : store buf off xs = .ok buf₁)
    (h₂ : store buf₁ (off + xs.length) ys = .ok buf₂) : store buf off (xs ++ ys) = .ok buf₂ := by
  have hle₁ := le_of_store h₁
  have hle₂ := le_of_store h₂
  rw [store_of_le hle₂] at h₂
  rw [store_of_le hle₁] at h₁
  obtain rfl := Except.ok.inj h₁
  obtain rfl := Except.ok.inj h₂
  have hfront : (buf.take off ++ xs).length = off + xs.length := by
    rw [List.length_append, List.length_take]
    omega
  have hlen : off + (xs ++ ys).length ≤ buf.length := by
    simp only [List.length_append, List.length_take, List.length_drop] at hle₂ ⊢
    omega
  have hdrop : (buf.take off ++ xs ++ buf.drop (off + xs.length)).drop (off + xs.length + ys.length)
      = buf.drop (off + (xs ++ ys).length) := by
    rw [← List.drop_drop, List.drop_left' hfront, List.drop_drop, List.length_append, Nat.add_assoc]
  rw [store_of_le hlen, List.take_left' hfront, hdrop, List.append_assoc _ xs ys]

/-! ## The ways in which a program goes wrong -/

/-- If the program goes wrong, then in one of these ways. -/
def FailsOnly (allowed : Fault → Prop) (x : Except Fault α) : Prop :=
  ∀ e, x = .error e → allowed e

section Fails

variable {allowed : Fault → Prop}

lemma failsOnly_ok (a : α) : FailsOnly allowed (.ok a) := by
  intro e he
  cases he

lemma FailsOnly.mono {allowed' : Fault → Prop} {x : Except Fault α} (h : FailsOnly allowed x)
    (himp : ∀ e, allowed e → allowed' e) : FailsOnly allowed' x := fun e he => himp e (h e he)

lemma FailsOnly.bind.{u} {α β : Type u} {x : Except Fault α} {f : α → Except Fault β}
    (hx : FailsOnly allowed x) (hf : ∀ a, x = .ok a → FailsOnly allowed (f a)) :
    FailsOnly allowed (x >>= f) := by
  cases x with
  | error e =>
    intro e' he'
    obtain rfl : e = e' := Except.error.inj he'
    exact hx e rfl
  | ok a => exact hf a rfl

lemma failsOnly_load {buf : List α} {off : ℕ} (h : buf.length ≤ off → allowed (.read off)) :
    FailsOnly allowed (load buf off) := by
  rw [load]
  split
  · exact failsOnly_ok _
  · next hnone =>
    intro e he
    obtain rfl := Except.error.inj he
    exact h (List.getElem?_eq_none_iff.1 hnone)

lemma failsOnly_slice {buf : List α} {off n : ℕ}
    (h : buf.length < off + n → allowed (.read (off + n))) :
    FailsOnly allowed (slice buf off n) := by
  rw [slice]
  split
  · exact failsOnly_ok _
  · next hlt =>
    intro e he
    obtain rfl := Except.error.inj he
    exact h (not_le.1 hlt)

lemma failsOnly_store {buf xs : List α} {off : ℕ} (h : ∀ i, allowed (.write i)) :
    FailsOnly allowed (store buf off xs) := by
  rw [store]
  split
  · exact failsOnly_ok _
  · intro e he
    obtain rfl := Except.error.inj he
    exact h _

end Fails

/-! ## A part of a program -/

section Until

universe u

variable {own : Fault → Prop} {α β γ δ : Type u} {f : α → β} {g : γ → δ}

/-- The second program does what the first one does, until that one goes wrong in one of the ways
in `own`, which the second one has nothing to do with. -/
def Until (own : Fault → Prop) (f : α → β) (x : Except Fault α) (y : Except Fault β) : Prop :=
  (∀ a, x = .ok a → y = .ok (f a)) ∧ ∀ e, x = .error e → own e ∨ y = .error e

lemma Until.bind {x : Except Fault α} {y : Except Fault β} {k : α → Except Fault γ}
    {l : β → Except Fault δ} (h : Until own f x y)
    (hk : ∀ a, x = .ok a → Until own g (k a) (l (f a))) : Until own g (x >>= k) (y >>= l) := by
  cases x with
  | ok a =>
    rw [h.1 a rfl]
    exact hk a rfl
  | error e =>
    refine ⟨fun a ha => (nomatch ha), fun e' he' => ?_⟩
    obtain rfl : e = e' := Except.error.inj he'
    refine (h.2 e rfl).imp_right fun hy => ?_
    rw [hy]
    rfl

/-- A step of both programs. -/
lemma Until.same {x : Except Fault α} {k : α → Except Fault γ} {l : α → Except Fault δ}
    (hk : ∀ a, x = .ok a → Until own g (k a) (l a)) : Until own g (x >>= k) (x >>= l) := by
  cases x with
  | ok a => exact hk a rfl
  | error e =>
    refine ⟨fun a ha => (nomatch ha), fun e' he' => .inr ?_⟩
    obtain rfl : e = e' := Except.error.inj he'
    rfl

/-- A step of the first program alone. -/
lemma Until.skip {x : Except Fault α} {k : α → Except Fault γ} {y : Except Fault δ}
    (hx : FailsOnly own x) (hk : ∀ a, x = .ok a → Until own g (k a) y) :
    Until own g (x >>= k) y := by
  cases x with
  | ok a => exact hk a rfl
  | error e =>
    refine ⟨fun a ha => (nomatch ha), fun e' he' => .inl ?_⟩
    obtain rfl : e = e' := Except.error.inj he'
    exact hx e rfl

end Until

/-! ## The cells found at an offset -/

/-- The cells of `buf` from offset `off` on begin with `xs`. -/
def HasAt (buf : List α) (off : ℕ) (xs : List α) : Prop := xs <+: buf.drop off

lemma hasAt_append_iff {buf : List α} {off : ℕ} {xs ys : List α} :
    HasAt buf off (xs ++ ys) ↔ HasAt buf off xs ∧ HasAt buf (off + xs.length) ys := by
  constructor
  · rintro ⟨t, ht⟩
    refine ⟨⟨ys ++ t, by rw [← ht, List.append_assoc]⟩, ⟨t, ?_⟩⟩
    rw [← List.drop_drop, ← ht, List.append_assoc]
    simp
  · rintro ⟨⟨t, ht⟩, ⟨u, hu⟩⟩
    refine ⟨u, ?_⟩
    rw [← List.drop_drop, ← ht] at hu
    simp only [List.drop_left] at hu
    rw [← ht, ← hu, List.append_assoc]

lemma hasAt_cons_iff {buf : List α} {off : ℕ} {x : α} {xs : List α} :
    HasAt buf off (x :: xs) ↔ buf[off]? = some x ∧ HasAt buf (off + 1) xs := by
  have h := @hasAt_append_iff α buf off [x] xs
  rw [List.singleton_append, List.length_singleton] at h
  rw [h]
  refine and_congr_left fun _ => ?_
  constructor
  · rintro ⟨t, ht⟩
    have := congrArg List.head? ht
    simpa [List.head?_drop] using this.symm
  · intro hx
    refine ⟨buf.drop (off + 1), ?_⟩
    obtain ⟨hlt, rfl⟩ := List.getElem?_eq_some_iff.1 hx
    simp

lemma HasAt.getElem? {buf : List α} {off : ℕ} {x : α} {xs : List α}
    (h : HasAt buf off (x :: xs)) : buf[off]? = some x := (hasAt_cons_iff.1 h).1

lemma HasAt.length_le {buf : List α} {off : ℕ} {xs : List α} (h : HasAt buf off xs)
    (hne : xs ≠ []) : off + xs.length ≤ buf.length := by
  have hl := List.IsPrefix.length_le h
  have hpos := List.length_pos_iff.2 hne
  rw [List.length_drop] at hl
  omega

/-- Cells of the same number that are found at the same offset. -/
lemma HasAt.unique {buf : List α} {off : ℕ} {xs ys : List α} (h : HasAt buf off xs)
    (h' : HasAt buf off ys) (hlen : xs.length = ys.length) : xs = ys :=
  List.IsPrefix.eq_of_length (List.prefix_of_prefix_length_le h h' hlen.le) hlen

lemma length_of_store {buf buf' xs : List α} {off : ℕ} (h : store buf off xs = .ok buf') :
    buf'.length = buf.length := by
  rw [store] at h
  split at h
  · obtain rfl := Except.ok.inj h
    simp only [List.length_append, List.length_take, List.length_drop]
    omega
  · cases h

lemma exists_store {buf xs : List α} {off : ℕ} (h : off + xs.length ≤ buf.length) :
    ∃ buf', store buf off xs = .ok buf' ∧ buf'.length = buf.length :=
  ⟨_, store_of_le h, length_of_store (store_of_le h)⟩

/-- A sequence of writes, each given by its offset and the cells that are written. -/
def storeAll (buf : List α) (writes : List (ℕ × List α)) : Except Fault (List α) :=
  writes.foldlM (fun buf x => store buf x.1 x.2) buf

lemma storeAll_cons (buf : List α) (x : ℕ × List α) (writes : List (ℕ × List α)) :
    storeAll buf (x :: writes) = store buf x.1 x.2 >>= fun buf => storeAll buf writes := rfl

/-- Writes succeed exactly if each of them stays inside the object. -/
lemma storeAll_ok_iff {buf : List α} {writes : List (ℕ × List α)} :
    (∃ buf', storeAll buf writes = .ok buf') ↔
      ∀ x ∈ writes, x.1 + x.2.length ≤ buf.length := by
  induction writes generalizing buf with
  | nil => simp [storeAll, pure, Except.pure]
  | cons x writes ih =>
    simp only [storeAll_cons, List.forall_mem_cons]
    constructor
    · rintro ⟨buf', h⟩
      obtain ⟨buf₁, h₁, h₂⟩ := bind_eq_ok.1 h
      refine ⟨le_of_store h₁, ?_⟩
      rw [← length_of_store h₁]
      exact ih.1 ⟨buf', h₂⟩
    · rintro ⟨hx, hwrites⟩
      obtain ⟨buf₁, h₁, hlen⟩ := exists_store hx
      obtain ⟨buf', h₂⟩ := (@ih buf₁).2 (by rwa [hlen])
      exact ⟨buf', bind_eq_ok.2 ⟨buf₁, h₁, h₂⟩⟩

/-- What a successful read of a part of an object yields. -/
lemma of_slice {buf xs : List α} {off n : ℕ} (h : slice buf off n = .ok xs) :
    xs.length = n ∧ ∀ i, i < n → xs[i]? = buf[off + i]? := by
  rw [slice] at h
  split at h
  · next hle =>
    obtain rfl := Except.ok.inj h
    constructor
    · rw [List.length_take, List.length_drop]
      omega
    · intro i hi
      rw [List.getElem?_take, if_pos hi, List.getElem?_drop]
  · cases h

lemma exists_slice {buf : List α} {off n : ℕ} (h : off + n ≤ buf.length) :
    ∃ xs, slice buf off n = .ok xs ∧ xs.length = n := by
  refine ⟨_, if_pos h, ?_⟩
  rw [List.length_take, List.length_drop]
  omega

lemma HasAt.slice {buf : List α} {off : ℕ} {xs : List α} (h : HasAt buf off xs)
    (hne : xs ≠ []) : slice buf off xs.length = .ok xs := by
  rw [Lib.slice, if_pos (h.length_le hne)]
  rw [← List.prefix_iff_eq_take.1 h]

/-- What is found at an offset is still found there when the object is longer. -/
lemma HasAt.append_right {buf : List α} {off : ℕ} {xs : List α} (h : HasAt buf off xs)
    (hne : xs ≠ []) (pad : List α) : HasAt (buf ++ pad) off xs := by
  have hle := h.length_le hne
  rw [HasAt, List.drop_append_of_le_length (by omega)]
  exact h.trans (List.prefix_append _ _)

/-- What is found at an offset, cell by cell. -/
lemma hasAt_iff_getElem? {buf : List α} {off : ℕ} {xs : List α} :
    HasAt buf off xs ↔ ∀ i < xs.length, buf[off + i]? = xs[i]? := by
  induction xs generalizing off with
  | nil => exact iff_of_true (List.nil_prefix) (by simp)
  | cons x xs ih =>
    rw [hasAt_cons_iff, ih]
    constructor
    · rintro ⟨h0, hrest⟩ i hi
      cases i with
      | zero => simpa using h0
      | succ i =>
        rw [List.getElem?_cons_succ, ← hrest i (by simpa using hi)]
        congr 1
        omega
    · intro h
      refine ⟨by simpa using h 0 (by simp), fun i hi => ?_⟩
      have hsucc := h (i + 1) (by simpa using hi)
      rw [List.getElem?_cons_succ] at hsucc
      rw [← hsucc]
      congr 1
      omega

/-- The middle of an object that has three parts. -/
lemma hasAt_of_append (pre xs post : List α) : HasAt (pre ++ xs ++ post) pre.length xs := by
  refine ⟨post, ?_⟩
  rw [List.append_assoc, List.drop_left]

/-- Reading the middle of an object that has three parts. -/
lemma slice_of_append {pre xs post : List α} (hne : xs ≠ []) :
    slice (pre ++ xs ++ post) pre.length xs.length = .ok xs :=
  (hasAt_of_append pre xs post).slice hne

/-- The cells that were stored. -/
lemma hasAt_of_store {buf buf' xs : List α} {off : ℕ} (h : store buf off xs = .ok buf') :
    HasAt buf' off xs := by
  have hle := le_of_store h
  rw [store_of_le hle] at h
  obtain rfl := Except.ok.inj h
  have hoff : (buf.take off).length = off := by
    rw [List.length_take]
    omega
  refine ⟨buf.drop (off + xs.length), ?_⟩
  rw [List.append_assoc, List.drop_append_of_le_length (by omega), List.drop_of_length_le hoff.le,
    List.nil_append]

/-- The cells in front of those that were stored. -/
lemma getElem?_of_store_lt {buf buf' xs : List α} {off i : ℕ} (h : store buf off xs = .ok buf')
    (hi : i < off) : buf'[i]? = buf[i]? := by
  have hle := le_of_store h
  rw [store_of_le hle] at h
  obtain rfl := Except.ok.inj h
  rw [List.append_assoc, List.getElem?_append_left (by rw [List.length_take]; omega),
    List.getElem?_take, if_pos hi]

/-- A write leaves what is found in front of it. -/
lemma HasAt.of_store {buf buf' xs ys : List α} {off off' : ℕ} (h : HasAt buf off xs)
    (hstore : store buf off' ys = .ok buf') (hle : off + xs.length ≤ off') :
    HasAt buf' off xs := by
  rw [hasAt_iff_getElem?] at h ⊢
  intro i hi
  rw [getElem?_of_store_lt hstore (by omega), h i hi]

/-- Reading a part of an object that is found at the offset, and of that length. -/
lemma hasAt_of_slice {buf xs : List α} {off n : ℕ} (h : slice buf off n = .ok xs) :
    HasAt buf off xs := by
  rw [slice] at h
  split at h
  · obtain rfl := Except.ok.inj h
    exact List.take_prefix n (buf.drop off)
  · cases h

end CppExample.Lib
