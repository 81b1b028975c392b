/-
# Tables of threads

The threads of a program are a list of local states; a thread is a position in it.  What
the proofs count over all threads is a sum, `total f ts`, with values in a commutative
monoid: a number for "how many threads are at such a point", a multiset for "the objects
that threads hold".  A move of one thread changes one summand.

The second half is a condition variable: which threads are blocked on it is read off their
local states, and a notification moves one or all of them to their woken state.
-/
import Mathlib.Algebra.BigOperators.Group.List.Basic
import Mathlib.Data.Multiset.AddSub
import Mathlib.Tactic

namespace CppExample.Lib

variable {L M : Type*} [AddCommMonoid M]

/-! ## Sums over a table -/

/-- The sum of `f` over the threads of a table. -/
def total (f : L → M) (ts : List L) : M := (ts.map f).sum

@[simp] lemma total_nil (f : L → M) : total f [] = 0 := rfl

@[simp] lemma total_cons (f : L → M) (a : L) (ts : List L) :
    total f (a :: ts) = f a + total f ts := by
  rw [total, List.map_cons, List.sum_cons, total]

@[simp] lemma total_append (f : L → M) (ts us : List L) :
    total f (ts ++ us) = total f ts + total f us := by
  rw [total, List.map_append, List.sum_append, total, total]

/-- A move of one thread, from `a` to `b`, exchanges one summand. -/
lemma total_set {f : L → M} {ts : List L} {i : ℕ} {a : L} (h : ts[i]? = some a) (b : L) :
    total f (ts.set i b) + f a = total f ts + f b := by
  induction ts generalizing i with
  | nil => simp at h
  | cons t ts ih =>
    cases i with
    | zero =>
      obtain rfl : t = a := by simpa using h
      rw [List.set_cons_zero, total_cons, total_cons]
      abel
    | succ i =>
      have hih := ih (by simpa using h)
      rw [List.set_cons_succ, total_cons, total_cons, add_assoc, hih, add_assoc]

/-- A move between points with the same value keeps the sum. -/
lemma total_set_of_eq {N : Type*} [AddCancelCommMonoid N] {f : L → N} {ts : List L} {i : ℕ}
    {a b : L} (h : ts[i]? = some a) (hab : f b = f a) : total f (ts.set i b) = total f ts := by
  have := total_set (f := f) h b
  rw [hab] at this
  exact add_right_cancel this

/-- A map that keeps the value of every thread keeps the sum. -/
lemma total_map {f : L → M} {g : L → L} (hg : ∀ a, f (g a) = f a) (ts : List L) :
    total f (ts.map g) = total f ts := by
  rw [total, total, List.map_map]
  congr 1
  exact List.map_congr_left fun a _ => hg a

/-- The sum of an indicator is the number of threads that have the property. -/
lemma total_eq_countP {f : L → ℤ} {w : L → Bool} {ts : List L}
    (h : ∀ a ∈ ts, f a = if w a then 1 else 0) : total f ts = ts.countP w := by
  induction ts with
  | nil => rfl
  | cons a ts ih =>
    have hrest := ih fun b hb => h b (List.mem_cons_of_mem a hb)
    have ha := h a List.mem_cons_self
    rw [total_cons, hrest, ha, List.countP_cons]
    split <;> push_cast <;> omega

/-- A sum that is not zero has a summand that is not. -/
lemma exists_mem_of_total_ne_zero {f : L → M} {ts : List L} (h : total f ts ≠ 0) :
    ∃ a ∈ ts, f a ≠ 0 := by
  by_contra hall
  push Not at hall
  exact h (List.sum_eq_zero fun b hb => by
    obtain ⟨a, ha, rfl⟩ := List.mem_map.1 hb
    exact hall a ha)

/-- A map that adds at most `k` to the value of every thread. -/
lemma total_map_le {f f' : L → ℕ} {g : L → L} {k : ℕ} (hg : ∀ a, f' (g a) ≤ f a + k)
    (ts : List L) : total f' (ts.map g) ≤ total f ts + k * ts.length := by
  induction ts with
  | nil => exact Nat.zero_le _
  | cons a ts ih =>
    have ha := hg a
    rw [List.map_cons, total_cons, total_cons, List.length_cons, mul_add]
    omega

lemma total_eq_zero {f : L → M} {ts : List L} (h : ∀ a ∈ ts, f a = 0) : total f ts = 0 := by
  refine List.sum_eq_zero fun b hb => ?_
  obtain ⟨a, ha, rfl⟩ := List.mem_map.1 hb
  exact h a ha

/-- The number of objects that the threads hold. -/
lemma card_total {β : Type*} (f : L → Multiset β) (ts : List L) :
    Multiset.card (total f ts) = total (fun a => Multiset.card (f a)) ts := by
  induction ts with
  | nil => rfl
  | cons a ts ih => rw [total_cons, total_cons, Multiset.card_add, ih]

lemma le_total_of_mem {f : L → ℕ} {ts : List L} {a : L} (h : a ∈ ts) : f a ≤ total f ts :=
  List.single_le_sum (by simp) _ (List.mem_map_of_mem h)

/-! ## Moving one thread -/

lemma getElem?_set_self_of_getElem? {ts : List L} {i : ℕ} {a : L} (h : ts[i]? = some a)
    (b : L) : (ts.set i b)[i]? = some b := by
  have hi := (List.getElem?_eq_some_iff.1 h).1
  simp [hi]

lemma set_of_getElem? {ts : List L} {i : ℕ} {a : L} (h : ts[i]? = some a) : ts.set i a = ts := by
  obtain ⟨hi, rfl⟩ := List.getElem?_eq_some_iff.1 h
  exact List.set_getElem_self hi

/-- Two tables of the same threads, when one thread moves in both. -/
lemma zipWith_set {L' L'' : Type*} (f : L → L' → L'') (ts : List L) (us : List L') (i : ℕ) (a : L)
    (b : L') : List.zipWith f (ts.set i a) (us.set i b) = (List.zipWith f ts us).set i (f a b) := by
  induction ts generalizing us i with
  | nil => rfl
  | cons t ts ih =>
    cases us with
    | nil => cases i <;> rfl
    | cons u us =>
      cases i with
      | zero => rfl
      | succ i => simp [ih]

lemma eq_of_getElem?_set {ts : List L} {i : ℕ} {a b : L} (h : (ts.set i a)[i]? = some b) :
    a = b := by
  rw [List.getElem?_set_self'] at h
  cases hi : ts[i]? with
  | none =>
    rw [hi] at h
    cases h
  | some c =>
    rw [hi] at h
    exact Option.some.inj h

/-- The objects that threads hold, as a list, when one thread moves between points at which
it holds the same. -/
lemma filterMap_set_of_eq {β : Type*} {f : L → Option β} {ts : List L} {i : ℕ} {a b : L}
    (h : ts[i]? = some a) (hab : f b = f a) : (ts.set i b).filterMap f = ts.filterMap f := by
  induction ts generalizing i with
  | nil => rfl
  | cons t ts ih =>
    cases i with
    | zero =>
      obtain rfl : t = a := by simpa using h
      rw [List.set_cons_zero, List.filterMap_cons, List.filterMap_cons, hab]
    | succ i =>
      rw [List.set_cons_succ, List.filterMap_cons, List.filterMap_cons, ih (by simpa using h)]

/-- The objects that threads hold, as a multiset, when one thread moves. -/
lemma filterMap_set_add {β : Type*} {f : L → Option β} {ts : List L} {i : ℕ} {a : L}
    (h : ts[i]? = some a) (b : L) :
    ((ts.set i b).filterMap f : Multiset β) + ((f a).toList : Multiset β)
      = (ts.filterMap f : Multiset β) + ((f b).toList : Multiset β) := by
  have hsum : ∀ us : List L, (us.filterMap f : Multiset β)
      = total (fun c => ((f c).toList : Multiset β)) us := by
    intro us
    induction us with
    | nil => rfl
    | cons u us ih =>
      rw [total_cons, ← ih, Multiset.coe_add, List.filterMap_cons]
      cases f u <;> rfl
  rw [hsum, hsum]
  exact total_set h b

/-- When at most one thread of the table has a property, a thread that has it is alone. -/
lemma eq_false_of_total_le_one {w : L → Bool} {ts : List L}
    (hle : total (fun a => if w a then 1 else 0) ts ≤ 1) {i : ℕ} {a : L} (h : ts[i]? = some a)
    (ha : w a = true) {j : ℕ} (hij : j ≠ i) {b : L} (hb : ts[j]? = some b) : w b = false := by
  induction ts generalizing i j with
  | nil => simp at h
  | cons t ts ih =>
    rw [total_cons] at hle
    cases i with
    | zero =>
      obtain rfl : t = a := by simpa using h
      obtain ⟨j, rfl⟩ := Nat.exists_eq_succ_of_ne_zero hij
      have hmem : b ∈ ts := List.mem_of_getElem? (by simpa using hb)
      have hb' := le_total_of_mem (f := fun a => if w a then 1 else 0) hmem
      simp only [ha, if_true] at hle
      cases hwb : w b with
      | false => rfl
      | true =>
        simp only [hwb, if_true] at hb'
        omega
    | succ i =>
      have hi : ts[i]? = some a := by simpa using h
      cases j with
      | zero =>
        obtain rfl : t = b := by simpa using hb
        have ha' := le_total_of_mem (f := fun a => if w a then 1 else 0)
          (List.mem_of_getElem? hi)
        simp only [ha, if_true] at ha'
        cases hwb : w t with
        | false => rfl
        | true =>
          simp only [hwb, if_true] at hle
          omega
      | succ j =>
        exact ih (by omega) hi (by simpa using hij) (by simpa using hb)

/-- What threads hold, when only one of them can hold something. -/
lemma filterMap_eq_toList {β : Type*} {f : L → Option β} {ts : List L} {i : ℕ} {a : L}
    (h : ts[i]? = some a) (hother : ∀ j b, j ≠ i → ts[j]? = some b → f b = none) :
    ts.filterMap f = (f a).toList := by
  induction ts generalizing i with
  | nil => simp at h
  | cons t ts ih =>
    rw [List.filterMap_cons]
    cases i with
    | zero =>
      obtain rfl : t = a := by simpa using h
      have hrest : ts.filterMap f = [] := by
        rw [List.filterMap_eq_nil_iff]
        intro b hb
        obtain ⟨j, hj⟩ := List.getElem?_of_mem hb
        exact hother (j + 1) b (by omega) (by simpa using hj)
      rw [hrest]
      cases f t <;> rfl
    | succ i =>
      have ht : f t = none := hother 0 t (by omega) (by simp)
      rw [ht]
      exact ih (by simpa using h) fun j b hj hb =>
        hother (j + 1) b (by omega) (by simpa using hb)

/-- When `g` gives everything that `f` gives, so it does over a table. -/
lemma filterMap_sublist_filterMap {β : Type*} {f g : L → Option β}
    (hfg : ∀ a x, f a = some x → g a = some x) (ts : List L) :
    (ts.filterMap f).Sublist (ts.filterMap g) := by
  induction ts with
  | nil => exact List.Sublist.refl _
  | cons a ts ih =>
    rw [List.filterMap_cons, List.filterMap_cons]
    cases hf : f a with
    | some x =>
      rw [hfg a x hf]
      exact ih.cons_cons x
    | none =>
      cases g a with
      | none => exact ih
      | some x => exact ih.cons x

/-- There are at most as many objects as threads that can hold one. -/
lemma length_filterMap_le_total {β : Type*} {f : L → Option β} {c : L → ℕ}
    (hfc : ∀ a x, f a = some x → 1 ≤ c a) (ts : List L) :
    (ts.filterMap f).length ≤ total c ts := by
  induction ts with
  | nil => exact Nat.le_refl 0
  | cons a ts ih =>
    rw [List.filterMap_cons, total_cons]
    cases hf : f a with
    | none => exact ih.trans (Nat.le_add_left _ _)
    | some x =>
      have hc := hfc a x hf
      rw [List.length_cons]
      omega

lemma map_set_of_eq {β : Type*} {f : L → β} {ts : List L} {i : ℕ} {a b : L}
    (h : ts[i]? = some a) (hab : f b = f a) : (ts.set i b).map f = ts.map f := by
  obtain ⟨hi, rfl⟩ := List.getElem?_eq_some_iff.1 h
  have hlen : i < (ts.map f).length := by rwa [List.length_map]
  have hget : (ts.map f)[i] = f ts[i] := List.getElem_map f
  rw [List.map_set, hab, ← hget, List.set_getElem_self]

/-- What `f` tells of the threads holds of one of them, or not, whatever else has changed. -/
lemma exists_mem_congr {f : L → Bool} {ts us : List L} (h : us.map f = ts.map f) :
    (∃ p ∈ us, f p = true) ↔ ∃ p ∈ ts, f p = true := by
  rw [← List.mem_map, h, List.mem_map]

/-- A property that some thread has is still had by some thread when a thread moves
between points that have it or from one that has not. -/
lemma exists_mem_set {f : L → Bool} {ts : List L} {i : ℕ} {a b : L} (h : ts[i]? = some a)
    (hab : f a = true → f b = true) (hex : ∃ c ∈ ts, f c = true) :
    ∃ c ∈ ts.set i b, f c = true := by
  obtain ⟨c, hc, hfc⟩ := hex
  obtain ⟨j, hj⟩ := List.getElem?_of_mem hc
  by_cases hij : i = j
  · subst hij
    obtain rfl := Option.some.inj (h.symm.trans hj)
    exact ⟨b, List.mem_of_getElem? (getElem?_set_self_of_getElem? h b), hab hfc⟩
  · exact ⟨c, List.mem_of_getElem? ((List.getElem?_set_ne hij).trans hj), hfc⟩

/-- The converse: the moved thread is the only new one. -/
lemma exists_mem_of_set {f : L → Bool} {ts : List L} {i : ℕ} {a b : L} (h : ts[i]? = some a)
    (hba : f b = true → f a = true) (hex : ∃ c ∈ ts.set i b, f c = true) :
    ∃ c ∈ ts, f c = true := by
  obtain ⟨c, hc, hfc⟩ := hex
  rcases List.mem_or_eq_of_mem_set hc with hc | rfl
  · exact ⟨c, hc, hfc⟩
  · exact ⟨a, List.mem_of_getElem? h, hba hfc⟩

lemma forall_mem_set {P : L → Prop} {ts : List L} (h : ∀ a ∈ ts, P a) (i : ℕ) {b : L}
    (hb : P b) : ∀ a ∈ ts.set i b, P a := by
  intro a ha
  rcases List.mem_or_eq_of_mem_set ha with ha | rfl
  · exact h a ha
  · exact hb

/-! ## Condition variables -/

/-- `notify_one`: some blocked thread is moved to its woken state, when there is one.
`woken a` is the state that a thread blocked in `a` is woken to. -/
def NotifyOne (woken : L → Option L) (ts ts' : List L) : Prop :=
  (∃ j a b, ts[j]? = some a ∧ woken a = some b ∧ ts' = ts.set j b) ∨
    ((∀ a ∈ ts, woken a = none) ∧ ts' = ts)

/-- `notify_all`: every blocked thread is moved to its woken state. -/
def notifyAll (woken : L → Option L) (ts : List L) : List L :=
  ts.map fun a => (woken a).getD a

section

variable {woken : L → Option L}

lemma NotifyOne.total_eq {N : Type*} [AddCancelCommMonoid N] {f : L → N} {ts ts' : List L}
    (h : NotifyOne woken ts ts') (hf : ∀ a b, woken a = some b → f b = f a) :
    total f ts' = total f ts := by
  rcases h with ⟨j, a, b, ha, hb, rfl⟩ | ⟨-, rfl⟩
  · exact total_set_of_eq ha (hf a b hb)
  · rfl

/-- Somebody is woken, or there is nobody. -/
lemma NotifyOne.exists_result (woken : L → Option L) (ts : List L) :
    ∃ ts', NotifyOne woken ts ts' := by
  by_cases hall : ∀ a ∈ ts, woken a = none
  · exact ⟨ts, Or.inr ⟨hall, rfl⟩⟩
  · push Not at hall
    obtain ⟨a, ha, hne⟩ := hall
    obtain ⟨j, hj⟩ := List.getElem?_of_mem ha
    obtain ⟨b, hb⟩ := Option.ne_none_iff_exists'.1 hne
    exact ⟨ts.set j b, Or.inl ⟨j, a, b, hj, hb, rfl⟩⟩

/-- A notification costs what it costs to wake one thread. -/
lemma NotifyOne.total_le {f : L → ℕ} {k : ℕ} {ts ts' : List L} (h : NotifyOne woken ts ts')
    (hf : ∀ a b, woken a = some b → f b ≤ f a + k) : total f ts' ≤ total f ts + k := by
  rcases h with ⟨j, a, b, ha, hb, rfl⟩ | ⟨-, rfl⟩
  · have hset := total_set (f := f) ha b
    have hab := hf a b hb
    omega
  · omega

lemma total_notifyAll {f : L → M} (hf : ∀ a b, woken a = some b → f b = f a) (ts : List L) :
    total f (notifyAll woken ts) = total f ts := by
  refine total_map (fun a => ?_) ts
  cases h : woken a with
  | none => rfl
  | some b => exact hf a b h

/-- A thread that is not blocked is not touched by `notify_one`. -/
lemma NotifyOne.getElem?_of_not_blocked {ts ts' : List L} (h : NotifyOne woken ts ts') {i : ℕ}
    {a : L} (ha : ts[i]? = some a) (hw : woken a = none) : ts'[i]? = some a := by
  rcases h with ⟨j, b, c, hb, hc, rfl⟩ | ⟨-, rfl⟩
  · have hne : j ≠ i := by
      rintro rfl
      rw [ha, Option.some.injEq] at hb
      rw [hb, hc] at hw
      cases hw
    rw [List.getElem?_set_ne hne]
    exact ha
  · exact ha

lemma NotifyOne.filterMap_eq {β : Type*} {f : L → Option β} {ts ts' : List L}
    (h : NotifyOne woken ts ts') (hf : ∀ a b, woken a = some b → f b = f a) :
    ts'.filterMap f = ts.filterMap f := by
  rcases h with ⟨j, a, b, ha, hb, rfl⟩ | ⟨-, rfl⟩
  · exact filterMap_set_of_eq ha (hf a b hb)
  · rfl

lemma filterMap_notifyAll {β : Type*} {f : L → Option β}
    (hf : ∀ a b, woken a = some b → f b = f a) (ts : List L) :
    (notifyAll woken ts).filterMap f = ts.filterMap f := by
  rw [notifyAll, List.filterMap_map]
  refine List.filterMap_congr fun a _ => ?_
  cases h : woken a with
  | none => simp [h]
  | some b => simpa [h] using hf a b h

lemma NotifyOne.forall_mem {P : L → Prop} {ts ts' : List L} (h : NotifyOne woken ts ts')
    (hP : ∀ a b, woken a = some b → P a → P b) (hts : ∀ a ∈ ts, P a) : ∀ a ∈ ts', P a := by
  rcases h with ⟨j, a, b, ha, hb, rfl⟩ | ⟨-, rfl⟩
  · exact forall_mem_set hts j (hP a b hb (hts a (List.mem_of_getElem? ha)))
  · exact hts

lemma forall_mem_notifyAll {P : L → Prop} {ts : List L}
    (hP : ∀ a b, woken a = some b → P a → P b) (hts : ∀ a ∈ ts, P a) :
    ∀ a ∈ notifyAll woken ts, P a := by
  intro b hb
  obtain ⟨a, ha, rfl⟩ := List.mem_map.1 hb
  cases hw : woken a with
  | none => exact hts a ha
  | some c => exact hP a c hw (hts a ha)

lemma NotifyOne.map_eq {β : Type*} {f : L → β} {ts ts' : List L} (h : NotifyOne woken ts ts')
    (hf : ∀ a b, woken a = some b → f b = f a) : ts'.map f = ts.map f := by
  rcases h with ⟨j, a, b, ha, hb, rfl⟩ | ⟨-, rfl⟩
  · exact map_set_of_eq ha (hf a b hb)
  · rfl

lemma map_notifyAll {β : Type*} {f : L → β} (hf : ∀ a b, woken a = some b → f b = f a)
    (ts : List L) : (notifyAll woken ts).map f = ts.map f := by
  rw [notifyAll, List.map_map]
  refine List.map_congr_left fun a _ => ?_
  cases h : woken a with
  | none => simp [h]
  | some b => simpa [h] using hf a b h

lemma getElem?_notifyAll {ts : List L} {i : ℕ} {a : L} (h : ts[i]? = some a) :
    (notifyAll woken ts)[i]? = some ((woken a).getD a) := by
  rw [notifyAll, List.getElem?_map, h]
  rfl

end

end CppExample.Lib
