/-
# The c1000k server without its memory

`State.after` is the server as seen from outside: every connection has a buffer of its own,
which is a function, `contents`, of what was received on the connection since it was
accepted, and which is sent as a whole.  `State.Faithful.handle` says that the server does
this, in every run and whatever allocations fail in it, as long as it does not fault.

The steps are given here with what the kernel contributes to them, so that two runs can be
compared.
-/
import CppExample.C1000k.Custody
import CppExample.C1000k.Registration

namespace CppExample.C1000k
open Lib

variable {ok : ℕ → Bool} {sockfds : Finset ℤ} {s t : State} {e : Event} {r : Reply}

/-! ## What a connection has received and sent -/

/-- What a call leaves in the buffers. -/
def Act.fill (x : List UInt8) : Act → List UInt8
  | .recv bytes => bytes ++ x.drop bytes.length
  | .send _ _ => x

/-- The contents of the buffers of a connection after the calls `log`. -/
def contents (log : List Act) : List UInt8 :=
  log.foldl Act.fill (List.replicate bufferLength 0)

/-- Every message fits in the buffer. -/
def Fits (log : List Act) : Prop := ∀ bytes, Act.recv bytes ∈ log → bytes.length ≤ bufferLength

@[simp] lemma contents_nil : contents [] = List.replicate bufferLength 0 := rfl

@[simp] lemma contents_snoc (log : List Act) (a : Act) :
    contents (log ++ [a]) = a.fill (contents log) := by
  simp [contents]

lemma Fits.snoc {log : List Act} (h : Fits log) {a : Act}
    (ha : ∀ bytes, a = .recv bytes → bytes.length ≤ bufferLength) : Fits (log ++ [a]) := by
  intro bytes hb
  rcases List.mem_append.1 hb with hb | hb
  · exact h bytes hb
  · exact ha bytes (List.mem_singleton.1 hb).symm

lemma Fits.of_prefix {l log : List Act} (h : Fits log) (hpre : l <+: log) : Fits l :=
  fun bytes hb => h bytes (hpre.mem hb)

lemma Fits.length_contents {log : List Act} (h : Fits log) :
    (contents log).length = bufferLength := by
  induction log using List.reverseRecOn with
  | nil => simp
  | append_singleton log a ih =>
    have hlog := ih (h.of_prefix (List.prefix_append _ _))
    rw [contents_snoc]
    cases a with
    | recv bytes =>
      have hle := h bytes (by simp)
      rw [Act.fill, List.length_append, List.length_drop]
      omega
    | send given transferred => exact hlog

/-! ## The server as seen from outside -/

/-- The state after an event has been handled, when the memory is then `w`. -/
def State.after (sockfds : Finset ℤ) (s : State) (e : Event) (r : Reply) (w : World) : State :=
  if e.fd ∈ sockfds then
    match r.accept with
    | none => { s with world := w, batch := [] }
    | some c => { s with
        world := w
        conns := insert c s.conns
        interest := Function.update s.interest c (some .epollin)
        log := Function.update s.log c [] }
  else if e.epollin then
    match r.recv with
    | .data bytes => { s with
        world := w
        interest := epollMod s.interest e.fd .epollout
        log := Function.update s.log e.fd (s.log e.fd ++ [.recv bytes]) }
    | .eof => { s with
        world := w
        conns := s.conns.erase e.fd
        interest := Function.update s.interest e.fd none }
    | .error => { s with world := w }
  else if e.epollout then { s with
    world := w
    interest := epollMod s.interest e.fd .epollin
    log := Function.update s.log e.fd (s.log e.fd ++
      [.send (contents (s.log e.fd)) ((contents (s.log e.fd)).take r.send.toNat)]) }
  else { s with world := w }

lemma State.after_change (hdue : Due sockfds s e) (hr : r.Ok sockfds s) (w : World) :
    Change sockfds s e (s.after sockfds e r w) := by
  rw [State.after]
  split
  · next hl =>
    split
    · exact .abandon hl
    · next c hc =>
      obtain ⟨hpos, hnot, hnew⟩ := hr.accept c hc
      exact .accept hl hpos hnot hnew
  · next hl =>
    obtain ⟨hc, hin, hout⟩ := hdue.resolve_left hl
    split
    · next hein =>
      split
      · exact .recv _ hc (hin hein)
      · exact .close hc
      · exact .none
    · split
      · next heout => exact .send _ _ hc (hout heout)
      · exact .none

/-! ## The memory behind it -/

/-- The memory is what the calls on the connections have left in it. -/
structure State.Faithful (s : State) : Prop where
  custody : ∃ bs addr, Custody s.world s.conns bs addr fun x => contents (s.log x.1)
  fits : ∀ fd, Fits (s.log fd)

lemma faithful_start : (State.start sockfds).Faithful := by
  refine ⟨⟨[], fun _ => none, represents_zero, ?_, ?_, ?_, ?_⟩, fun _ _ hb => ?_⟩
  · exact fun fd hfd => absurd hfd (Finset.notMem_empty fd)
  · exact fun fd hfd => absurd hfd (Finset.notMem_empty fd)
  · exact fun x hx => absurd hx (Finset.notMem_empty x.1)
  · exact fun x _ hx => absurd hx (Finset.notMem_empty x.1)
  · exact absurd hb List.not_mem_nil

/-- The lookup at the beginning of a handler that has returned. -/
lemma Custody.lookup_of_handler {w : World} {conns : Finset ℤ} {bs : List (Addr × Addr)}
    {addr : ℤ × Side → Option Addr} {buf : ℤ × Side → List UInt8} {fd : ℤ} {n : ℕ}
    (h : Custody w conns bs addr buf) {rest : ItemPtr × World → Except Fault State}
    (heq : ∀ fuel, n ≤ fuel → lookupItem ok fuel w fd >>= rest = .ok t) :
    ∃ fuel p w₁ bs', n ≤ fuel ∧ lookupItem ok fuel w fd = .ok (p, w₁) ∧ 0 < fd ∧
      Custody w₁ conns bs' addr buf ∧ ItemAt bs' fd p := by
  obtain ⟨fuel, hn, hfuel⟩ : ∃ fuel, n ≤ fuel ∧ max bs.length (fd.toNat / itemLength + 1) ≤ fuel :=
    ⟨max n (max bs.length (fd.toNat / itemLength + 1)), le_max_left _ _, le_max_right _ _⟩
  obtain ⟨⟨p, w₁⟩, hlookup, -⟩ := bind_eq_ok.1 (heq fuel hn)
  obtain ⟨hpos, hext, bs', hrep, hpre, hp⟩ := h.represents.lookupItem_of_eq hfuel hlookup
  exact ⟨fuel, p, w₁, bs', hn, hlookup, hpos, h.grow hext hrep hpre, hp⟩

lemma World.exists_of_storeBuffer {w w' : World} {p : Option Addr} {bytes : List UInt8}
    (h : w.storeBuffer p bytes = .ok w') : ∃ a, p = some a := by
  obtain ⟨x, hx, -⟩ := bind_eq_ok.1 h
  obtain ⟨a, ha, -⟩ := deref_eq_ok.1 hx
  exact ⟨a, ha⟩

lemma World.exists_of_loadBuffer {w : World} {p : Option Addr} {n : ℕ} {bytes : List UInt8}
    (h : w.loadBuffer p n = .ok bytes) : ∃ a, p = some a := by
  obtain ⟨x, hx, -⟩ := bind_eq_ok.1 h
  obtain ⟨a, ha, -⟩ := deref_eq_ok.1 hx
  exact ⟨a, ha⟩

/-- A new connection. -/
lemma State.Faithful.handleAccept (hs : s.Faithful) {c : ℤ} (hc : c ∉ s.conns) {n : ℕ}
    (h : ∀ fuel, n ≤ fuel → handleAccept ok fuel s c = .ok t) :
    t = { s with
      world := t.world
      conns := insert c s.conns
      interest := Function.update s.interest c (some .epollin)
      log := Function.update s.log c [] } ∧ t.Faithful := by
  obtain ⟨bs, addr, hcust⟩ := hs.custody
  obtain ⟨fuel, p, w₁, bs', hn, hlookup, hpos, h₁, hp⟩ := hcust.lookup_of_handler h
  obtain ⟨w', new, hhandle, -, h'⟩ := @Custody.handleAccept ok _ _ _ _ _ _ _ h₁ hpos hc hp
  obtain rfl := Except.ok.inj ((h fuel hn).symm.trans (hhandle fuel hlookup))
  refine ⟨rfl, ⟨bs', fun y => if y.1 = c then new y.2 else addr y, ?_⟩, fun fd => ?_⟩
  · have hbuf : (fun y : ℤ × Side => contents (Function.update s.log c [] y.1))
        = fun y => if y.1 = c then List.replicate bufferLength 0 else contents (s.log y.1) := by
      funext y
      by_cases heq : y.1 = c
      · simp [heq]
      · simp [heq]
    rw [hbuf]
    exact h'
  · by_cases heq : fd = c
    · subst heq
      intro bytes hb
      simp at hb
    · simpa [heq] using hs.fits fd

/-- Bytes were received. -/
lemma State.Faithful.handleRead_data (hs : s.Faithful) {fd : ℤ} (hfd : fd ∈ s.conns)
    {bytes : List UInt8} (hlen : bytes.length ≤ bufferLength) {n : ℕ}
    (h : ∀ fuel, n ≤ fuel → handleRead ok fuel s fd (.data bytes) = .ok t) :
    t = { s with
      world := t.world
      interest := epollMod s.interest fd .epollout
      log := Function.update s.log fd (s.log fd ++ [.recv bytes]) } ∧ t.Faithful := by
  obtain ⟨bs, addr, hcust⟩ := hs.custody
  obtain ⟨fuel, p, w₁, bs', hn, hlookup, -, h₁, hp⟩ := hcust.lookup_of_handler h
  -- neither of the buffers is missing, since both were written
  have hrun := h fuel hn
  simp only [C1000k.handleRead, hlookup, ok_bind, h₁.readItem hfd hp] at hrun
  obtain ⟨w₂, hr, hrun⟩ := bind_eq_ok.1 hrun
  obtain ⟨copy, -, hrun⟩ := bind_eq_ok.1 hrun
  obtain ⟨w₃, hw, -⟩ := bind_eq_ok.1 hrun
  obtain ⟨a, ha⟩ := World.exists_of_storeBuffer hr
  obtain ⟨b, hb⟩ := World.exists_of_storeBuffer hw
  have hsize := (hs.fits fd).length_contents
  obtain ⟨w', hhandle, h'⟩ := h₁.handleRead_data hfd hp ha hb hsize hsize hlen
  obtain rfl := Except.ok.inj ((h fuel hn).symm.trans (hhandle fuel hlookup))
  refine ⟨rfl, ⟨bs', addr, ?_⟩, fun fd' => ?_⟩
  · have hbuf : (fun y : ℤ × Side =>
        contents (Function.update s.log fd (s.log fd ++ [.recv bytes]) y.1))
        = fun y => if y.1 = fd then bytes ++ (contents (s.log fd)).drop bytes.length
            else contents (s.log y.1) := by
      funext y
      by_cases heq : y.1 = fd
      · simp [heq, Act.fill]
      · simp [heq]
    rw [hbuf]
    exact h'
  · by_cases heq : fd' = fd
    · subst heq
      simp only [Function.update_self]
      refine (hs.fits fd').snoc ?_
      rintro bytes' ⟨⟩
      exact hlen
    · simpa [heq] using hs.fits fd'

/-- The connection was closed. -/
lemma State.Faithful.handleRead_eof (hs : s.Faithful) {fd : ℤ} (hfd : fd ∈ s.conns) {n : ℕ}
    (h : ∀ fuel, n ≤ fuel → handleRead ok fuel s fd .eof = .ok t) :
    t = { s with
      world := t.world
      conns := s.conns.erase fd
      interest := Function.update s.interest fd none } ∧ t.Faithful := by
  obtain ⟨bs, addr, hcust⟩ := hs.custody
  obtain ⟨fuel, p, w₁, bs', hn, hlookup, -, h₁, hp⟩ := hcust.lookup_of_handler h
  obtain ⟨w', hhandle, h'⟩ := @Custody.handleRead_eof ok _ _ _ _ _ _ _ h₁ hfd hp
  obtain rfl := Except.ok.inj ((h fuel hn).symm.trans (hhandle fuel hlookup))
  exact ⟨rfl, ⟨bs', addr, h'⟩, hs.fits⟩

/-- `recv` has failed. -/
lemma State.Faithful.handleRead_error (hs : s.Faithful) {fd : ℤ} (hfd : fd ∈ s.conns) {n : ℕ}
    (h : ∀ fuel, n ≤ fuel → handleRead ok fuel s fd .error = .ok t) :
    t = { s with world := t.world } ∧ t.Faithful := by
  obtain ⟨bs, addr, hcust⟩ := hs.custody
  obtain ⟨fuel, p, w₁, bs', hn, hlookup, -, h₁, hp⟩ := hcust.lookup_of_handler h
  obtain rfl := Except.ok.inj ((h fuel hn).symm.trans (h₁.handleRead_error hfd hp hlookup))
  exact ⟨rfl, ⟨bs', addr, h₁⟩, hs.fits⟩

/-- The contents of the buffer were sent. -/
lemma State.Faithful.handleWrite (hs : s.Faithful) {fd : ℤ} (hfd : fd ∈ s.conns) {sent : ℤ}
    {n : ℕ} (h : ∀ fuel, n ≤ fuel → handleWrite ok fuel s fd sent = .ok t) :
    t = { s with
      world := t.world
      interest := epollMod s.interest fd .epollin
      log := Function.update s.log fd (s.log fd ++
        [.send (contents (s.log fd)) ((contents (s.log fd)).take sent.toNat)]) } ∧
      t.Faithful := by
  obtain ⟨bs, addr, hcust⟩ := hs.custody
  obtain ⟨fuel, p, w₁, bs', hn, hlookup, -, h₁, hp⟩ := hcust.lookup_of_handler h
  have hrun := h fuel hn
  simp only [C1000k.handleWrite, hlookup, ok_bind, h₁.readItem hfd hp] at hrun
  obtain ⟨given, hload, -⟩ := bind_eq_ok.1 hrun
  obtain ⟨b, hb⟩ := World.exists_of_loadBuffer hload
  have hsize := (hs.fits fd).length_contents
  obtain rfl := Except.ok.inj ((h fuel hn).symm.trans
    (h₁.handleWrite hfd hp hb hsize sent hlookup))
  refine ⟨rfl, ⟨bs', addr, ?_⟩, fun fd' => ?_⟩
  · have hbuf : ∀ y : ℤ × Side, contents (Function.update s.log fd (s.log fd ++
        [.send (contents (s.log fd)) ((contents (s.log fd)).take sent.toNat)]) y.1)
        = contents (s.log y.1) := by
      intro y
      by_cases heq : y.1 = fd
      · simp [heq, Act.fill]
      · simp [heq]
    simp only [hbuf]
    exact h₁
  · by_cases heq : fd' = fd
    · subst heq
      simp only [Function.update_self]
      refine (hs.fits fd').snoc ?_
      rintro bytes ⟨⟩
    · simpa [heq] using hs.fits fd'

/-- **The server does what it seems to do from outside**, when it handles a due event. -/
theorem State.Faithful.handle (hs : s.Faithful) (hdue : Due sockfds s e) (hr : r.Ok sockfds s)
    (h : Handles ok sockfds s e r t) : t = s.after sockfds e r t.world ∧ t.Faithful := by
  obtain ⟨n, hn⟩ := h
  by_cases hl : e.fd ∈ sockfds
  · simp only [C1000k.handle, hl, if_true, State.after] at hn ⊢
    cases ha : r.accept with
    | none =>
      simp only [ha] at hn
      obtain rfl := Except.ok.inj (hn n le_rfl)
      exact ⟨rfl, hs.custody, hs.fits⟩
    | some c =>
      simp only [ha] at hn
      exact hs.handleAccept (hr.accept c ha).2.2 hn
  · obtain ⟨hc, -, -⟩ := hdue.resolve_left hl
    cases hin : e.epollin with
    | true =>
      simp only [C1000k.handle, hl, hin, if_false, if_true, State.after] at hn ⊢
      cases hrecv : r.recv with
      | data bytes =>
        simp only [hrecv] at hn
        exact hs.handleRead_data hc (hr.recv bytes hrecv).2 hn
      | eof =>
        simp only [hrecv] at hn
        exact hs.handleRead_eof hc hn
      | error =>
        simp only [hrecv] at hn
        exact hs.handleRead_error hc hn
    | false =>
      cases hout : e.epollout with
      | true =>
        simp only [C1000k.handle, hl, hin, hout, if_false, if_true, State.after,
          Bool.false_eq_true] at hn ⊢
        exact hs.handleWrite hc hn
      | false =>
        simp only [C1000k.handle, hl, hin, hout, if_false, State.after, Bool.false_eq_true]
          at hn ⊢
        obtain rfl := Except.ok.inj (hn n le_rfl)
        exact ⟨rfl, hs⟩

/-! ## Runs -/

/-- What the kernel contributes to a step. -/
inductive Input where
  /-- `epoll_wait` returns these events. -/
  | wait (events : List Event)
  /-- The answers while the next event is handled. -/
  | handle (r : Reply)
deriving DecidableEq, Repr

/-- A step of the server, with its input. -/
inductive Takes (ok : ℕ → Bool) (sockfds : Finset ℤ) : Input → State → State → Prop
  | wait {s : State} {events : List Event} (hb : s.batch = []) (hev : Reportable s events) :
      Takes ok sockfds (.wait events) s { s with batch := events }
  | handle {s t : State} {e : Event} {rest : List Event} {r : Reply} (hb : s.batch = e :: rest)
      (hr : r.Ok sockfds s) (ht : Handles ok sockfds { s with batch := rest } e r t) :
      Takes ok sockfds (.handle r) s t

lemma Takes.step {i : Input} (h : Takes ok sockfds i s t) : Step ok sockfds s t := by
  cases h with
  | wait hb hev => exact .wait _ hb hev
  | handle hb hr ht => exact .handle _ hb hr ht

/-- The invariant of all runs, whatever allocations fail. -/
structure State.Sound (sockfds : Finset ℤ) (s : State) : Prop where
  listed : s.Listed sockfds
  faithful : s.Faithful

lemma sound_start : (State.start sockfds).Sound sockfds := ⟨listed_start, faithful_start⟩

/-- Handling the next event of the batch, as seen from outside. -/
lemma State.Sound.handle (hs : s.Sound sockfds) {rest : List Event} (hb : s.batch = e :: rest)
    (hr : r.Ok sockfds s) (ht : Handles ok sockfds { s with batch := rest } e r t) :
    t = ({ s with batch := rest } : State).after sockfds e r t.world ∧ t.Sound sockfds := by
  have hdue : Due sockfds { s with batch := rest } e := hs.listed.due e (hb ▸ List.mem_cons_self)
  have hr' : r.Ok sockfds { s with batch := rest } := ⟨hr.accept, hr.recv⟩
  have hf : ({ s with batch := rest } : State).Faithful := ⟨hs.faithful.custody, hs.faithful.fits⟩
  obtain ⟨heq, hfaith⟩ := hf.handle hdue hr' ht
  refine ⟨heq, hs.listed.change hb ?_, hfaith⟩
  rw [heq]
  exact State.after_change hdue hr' t.world

lemma Takes.sound {i : Input} (h : Takes ok sockfds i s t) (hs : s.Sound sockfds) :
    t.Sound sockfds := by
  cases h with
  | wait hb hev => exact ⟨hs.listed.wait hev, hs.faithful.custody, hs.faithful.fits⟩
  | handle hb hr ht => exact (hs.handle hb hr ht).2

end CppExample.C1000k
