/-
# A client and a server with datagrams

`dg_cli` of `network/udp/d6_udp_echo_client.cpp` and `dg_echo` of `d6_udp_echo_server.cpp`, with
the network between them.  The client sends a line and waits for a datagram, which it takes for
the answer, from wherever it is.  The server answers whoever has sent a datagram; the client has
the address `me`, and there are other clients.

The network keeps no order.  It may lose a datagram, or deliver it twice, and somebody else may
send one to the client.  How often this has happened to the client is counted.

Without duplicates and strays there is at most one datagram of the client, so the answers come in
order; but if it is lost, then the client waits for ever: `can_finish_iff`.

Reading from the terminal and writing to it do not fail, and neither do the calls for the sockets.
-/
import CppExample.Lib.Run
import CppExample.Echo.StopAndWait

namespace CppExample.Udp.DatagramEcho
open Lib BasicLib
open Echo.StopAndWait (cstr inputLines cstr_isPrefix)

/-- Where `dg_cli` is. -/
inductive Client where
  /-- Before `Fgets`. -/
  | fgets
  /-- In `Recvfrom`. -/
  | waiting
  | returned
deriving DecidableEq, Repr

/-- The client, the server, and the datagrams on their way. -/
structure State (A : Type) where
  client : Client
  /-- What the terminal will still give. -/
  stdin : List UInt8
  stdout : List UInt8
  /-- Requests, with their senders. -/
  toServer : Multiset (A × List UInt8)
  /-- What `dg_echo` has between `Recvfrom` and `Sendto`. -/
  mesg : Option (A × List UInt8)
  /-- Datagrams for the client. -/
  toClient : Multiset (List UInt8)
  /-- The requests of the client so far. -/
  asked : List (List UInt8)
  /-- What it has printed, a string for each. -/
  printed : List (List UInt8)
  /-- The numbers of its datagrams that were lost, duplicated, or from somebody else. -/
  lost : ℕ
  dups : ℕ
  strays : ℕ

def State.start (A : Type) (input : List UInt8) : State A :=
  ⟨.fgets, input, [], 0, none, 0, [], [], 0, 0, 0⟩

variable {A : Type} [DecidableEq A]

/-- 1 for the client. -/
def own (me a : A) : ℕ := if a = me then 1 else 0

/-- The steps of the client and of the server. -/
inductive Works (me : A) : State A → State A → Prop
  | send {s : State A} (hc : s.client = .fgets)
      (hl : firstLine isNewline (maxline - 1) s.stdin ≠ []) :
      Works me s { s with
        client := .waiting
        stdin := afterLine isNewline (maxline - 1) s.stdin
        toServer := (me, cstr (firstLine isNewline (maxline - 1) s.stdin)) ::ₘ s.toServer
        asked := s.asked ++ [cstr (firstLine isNewline (maxline - 1) s.stdin)] }
  | eof {s : State A} (hc : s.client = .fgets)
      (hl : firstLine isNewline (maxline - 1) s.stdin = []) :
      Works me s { s with client := .returned }
  | serverRecv {s : State A} {a : A} {d : List UInt8} {rest : Multiset (A × List UInt8)}
      (hm : s.mesg = none) (hd : s.toServer = (a, d) ::ₘ rest) :
      Works me s { s with toServer := rest, mesg := some (a, d.take maxline) }
  | serverSend {s : State A} {a : A} {d : List UInt8} (hm : s.mesg = some (a, d)) :
      Works me s { s with
        mesg := none
        toClient := if a = me then d ::ₘ s.toClient else s.toClient }
  | recv {s : State A} {d : List UInt8} {rest : Multiset (List UInt8)} (hc : s.client = .waiting)
      (hd : s.toClient = d ::ₘ rest) :
      Works me s { s with
        client := .fgets
        toClient := rest
        stdout := s.stdout ++ cstr (d.take maxline)
        printed := s.printed ++ [cstr (d.take maxline)] }

/-- What the network and the other clients do. -/
inductive Disturbs (me : A) : State A → State A → Prop
  | foreign {s : State A} {a : A} (d : List UInt8) (ha : a ≠ me) :
      Disturbs me s { s with toServer := (a, d) ::ₘ s.toServer }
  | loseRequest {s : State A} {a : A} {d : List UInt8} {rest : Multiset (A × List UInt8)}
      (hd : s.toServer = (a, d) ::ₘ rest) :
      Disturbs me s { s with toServer := rest, lost := s.lost + own me a }
  | loseAnswer {s : State A} {d : List UInt8} {rest : Multiset (List UInt8)}
      (hd : s.toClient = d ::ₘ rest) :
      Disturbs me s { s with toClient := rest, lost := s.lost + 1 }
  | dupRequest {s : State A} {a : A} {d : List UInt8} (hd : (a, d) ∈ s.toServer) :
      Disturbs me s { s with toServer := (a, d) ::ₘ s.toServer, dups := s.dups + own me a }
  | dupAnswer {s : State A} {d : List UInt8} (hd : d ∈ s.toClient) :
      Disturbs me s { s with toClient := d ::ₘ s.toClient, dups := s.dups + 1 }
  | stray {s : State A} (d : List UInt8) :
      Disturbs me s { s with toClient := d ::ₘ s.toClient, strays := s.strays + 1 }

def Step (me : A) (s t : State A) : Prop := Works me s t ∨ Disturbs me s t

/-! ## The datagrams of the client -/

/-- What of a datagram at the server is the client's. -/
def mine (me : A) (d : A × List UInt8) : Multiset (List UInt8) := if d.1 = me then {d.2} else 0

/-- The datagrams of the client that are on their way, in either direction. -/
def State.flight (me : A) (s : State A) : Multiset (List UInt8) :=
  s.toServer.bind (mine me) + (s.mesg.elim 0 (mine me)) + s.toClient

/-- The client sends the lines of its input, in order. -/
structure Asks (input : List UInt8) (s : State A) : Prop where
  sent : ∃ before, inputLines maxline input = before ++ inputLines maxline s.stdin ∧
    s.asked = before.map cstr
  stdout : s.stdout = s.printed.flatten
  count : s.printed.length + (if s.client = .waiting then 1 else 0) = s.asked.length
  returned : s.client = .returned → s.stdin = []

/-- Without strays: everything on its way was asked, and an answer is one to a request that was
made before it. -/
structure Genuine (me : A) (s : State A) : Prop where
  flight : ∀ d ∈ s.flight me, d ∈ s.asked
  printed : ∀ (k : ℕ) (p : List UInt8), s.printed[k]? = some p → p ∈ s.asked.take (k + 1)

/-- Without duplicates: while the client waits, there is one datagram, or one was lost. -/
inductive Single (me : A) (s : State A) : Prop
  | quiet (hc : s.client ≠ .waiting) (hf : s.flight me = 0) (hl : s.lost = 0)
      (hp : s.printed = s.asked)
  | flying (d : List UInt8) (hc : s.client = .waiting) (hf : s.flight me = {d}) (hl : s.lost = 0)
      (hp : s.asked = s.printed ++ [d])
  | stuck (d : List UInt8) (hc : s.client = .waiting) (hf : s.flight me = 0) (hl : s.lost = 1)
      (hp : s.asked = s.printed ++ [d])

variable {me a : A} {input d : List UInt8} {s t : State A}

lemma maxline_pos : 0 < maxline - 1 := by decide

omit [DecidableEq A] in
/-- A request is a string that fits into the buffers. -/
lemma Asks.of_mem (h : Asks input s) (hd : d ∈ s.asked) :
    d.take maxline = d ∧ cstr d = d := by
  obtain ⟨before, hall, hasked⟩ := h.sent
  rw [hasked, List.mem_map] at hd
  obtain ⟨x, hx, rfl⟩ := hd
  have hmem : x ∈ inputLines maxline input := by
    rw [hall]
    exact List.mem_append_left _ hx
  have hlen : x.length ≤ maxline - 1 := by
    rw [← (of_mem_lines hmem).2]
    exact length_firstLine_le _ _
  have hcstr := (cstr_isPrefix x).length_le
  refine ⟨List.take_of_length_le (by omega), List.takeWhile_eq_self_iff.2 fun b hb => ?_⟩
  simpa using List.mem_takeWhile_imp hb

lemma mine_self (d : List UInt8) : mine me (me, d) = {d} := if_pos rfl

lemma mine_other (ha : a ≠ me) (d : List UInt8) : mine me (a, d) = 0 := if_neg ha

lemma mem_mine {x : A × List UInt8} : d ∈ mine me x ↔ x = (me, d) := by
  obtain ⟨a, e⟩ := x
  by_cases ha : a = me
  · subst ha
    simp [mine_self, eq_comm]
  · simp [mine_other ha, ha]

/-- Where a datagram on its way can be. -/
lemma mem_flight :
    d ∈ s.flight me ↔ (me, d) ∈ s.toServer ∨ s.mesg = some (me, d) ∨ d ∈ s.toClient := by
  have hmesg : d ∈ s.mesg.elim 0 (mine me) ↔ s.mesg = some (me, d) := by
    cases s.mesg with
    | none => simp
    | some x => simp [mem_mine]
  simp [State.flight, Multiset.mem_bind, mem_mine, hmesg, or_assoc]

/-- The server takes a datagram, which fits into its buffer if it is the client's. -/
lemma flight_serverRecv {rest : Multiset (A × List UInt8)} (hm : s.mesg = none)
    (hd : s.toServer = (a, d) ::ₘ rest) (htake : a = me → d.take maxline = d) :
    State.flight me { s with toServer := rest, mesg := some (a, d.take maxline) }
      = s.flight me := by
  have hmine : mine me (a, d.take maxline) = mine me (a, d) := by
    by_cases ha : a = me
    · rw [htake ha]
    · rw [mine_other ha, mine_other ha]
  simp only [State.flight, hm, hd, Multiset.cons_bind, Option.elim_some, Option.elim_none, hmine,
    add_zero]
  rw [add_comm (mine me (a, d))]

/-- The server answers. -/
lemma flight_serverSend (hm : s.mesg = some (a, d)) :
    State.flight me { s with
        mesg := none
        toClient := if a = me then d ::ₘ s.toClient else s.toClient }
      = s.flight me := by
  by_cases ha : a = me
  · subst ha
    simp only [State.flight, hm, Option.elim_some, Option.elim_none, if_true, mine_self, add_zero]
    rw [add_assoc, Multiset.singleton_add]
  · simp only [State.flight, hm, Option.elim_some, Option.elim_none, if_neg ha, mine_other ha]

/-! ## What the steps keep -/

omit [DecidableEq A] in
lemma asks_start (input : List UInt8) : Asks input (State.start A input) :=
  ⟨⟨[], rfl, rfl⟩, rfl, rfl, by simp [State.start]⟩

lemma asks_works (hs : Asks input s) (h : Works me s t) : Asks input t := by
  cases h with
  | send hc hl =>
    obtain ⟨before, hall, hasked⟩ := hs.sent
    have hne : s.stdin ≠ [] := by
      intro hin
      simp [hin] at hl
    have hcount := hs.count
    rw [if_neg (by simp [hc])] at hcount
    refine ⟨⟨before ++ [firstLine isNewline (maxline - 1) s.stdin], ?_, by simp [hasked]⟩,
      hs.stdout, by simpa using hcount, by simp⟩
    rw [hall, inputLines, inputLines, lines_of_ne_nil maxline_pos hne]
    simp
  | eof hc hl =>
    have hcount := hs.count
    rw [if_neg (by simp [hc])] at hcount
    refine ⟨hs.sent, hs.stdout, by simpa using hcount, fun _ => ?_⟩
    by_contra hne
    exact firstLine_ne_nil maxline_pos hne hl
  | serverRecv hm hd => exact ⟨hs.sent, hs.stdout, hs.count, hs.returned⟩
  | serverSend hm => exact ⟨hs.sent, hs.stdout, hs.count, hs.returned⟩
  | recv hc hd =>
    have hcount := hs.count
    rw [if_pos hc] at hcount
    exact ⟨hs.sent, by simp [hs.stdout], by simpa using hcount, by simp⟩

lemma asks_disturbs (hs : Asks input s) (h : Disturbs me s t) : Asks input t := by
  cases h <;> exact ⟨hs.sent, hs.stdout, hs.count, hs.returned⟩

/-- The client's own requests make the datagrams and the answers, unless there are strays. -/
lemma genuine_works (ha : Asks input s) (hg : Genuine me s) (h : Works me s t) :
    Genuine me t := by
  cases h with
  | send hc hl =>
    refine ⟨fun d hd => List.mem_append.2 ?_, fun k p hp => ?_⟩
    · rw [mem_flight, Multiset.mem_cons] at hd
      rcases hd with (hd | hd) | hd
      · exact .inr (List.mem_singleton.2 (Prod.ext_iff.1 hd).2)
      · exact .inl (hg.flight d (mem_flight.2 (.inl hd)))
      · exact .inl (hg.flight d (mem_flight.2 (.inr hd)))
    · exact (List.IsPrefix.take (List.prefix_append _ _) _).subset (hg.printed k p hp)
  | eof hc hl => exact ⟨fun d hd => hg.flight d (mem_flight.2 (mem_flight.1 hd)), hg.printed⟩
  | @serverRecv b e rest hm hd =>
    have htake : b = me → e.take maxline = e := by
      rintro rfl
      exact (ha.of_mem (hg.flight e (mem_flight.2 (.inl (by simp [hd]))))).1
    refine ⟨fun d hmem => hg.flight d ?_, hg.printed⟩
    rwa [flight_serverRecv hm hd htake] at hmem
  | serverSend hm =>
    refine ⟨fun d hmem => hg.flight d ?_, hg.printed⟩
    rwa [flight_serverSend hm] at hmem
  | @recv e rest hc hd =>
    have he : e ∈ s.asked := hg.flight e (mem_flight.2 (.inr (.inr (by simp [hd]))))
    have hcount := ha.count
    rw [if_pos hc] at hcount
    refine ⟨fun d hmem => hg.flight d ?_, fun k p hp => ?_⟩
    · rw [mem_flight] at hmem ⊢
      rw [hd]
      exact hmem.imp_right (.imp_right (Multiset.mem_cons_of_mem ·))
    · rcases lt_or_ge k s.printed.length with hk | hk
      · exact hg.printed k p (by rwa [List.getElem?_append_left hk] at hp)
      · obtain rfl : p = e := by
          rw [List.getElem?_append_right hk] at hp
          have hmem := List.mem_of_getElem? hp
          rw [(ha.of_mem he).1, (ha.of_mem he).2] at hmem
          simpa using hmem
        rwa [List.take_of_length_le (show s.asked.length ≤ k + 1 by omega)]

lemma genuine_disturbs (hg : Genuine me s) (h : Disturbs me s t) (hr : t.strays = 0) :
    Genuine me t := by
  have hmono : t.printed = s.printed → t.asked = s.asked →
      (∀ d, d ∈ t.flight me → d ∈ s.flight me) → Genuine me t := by
    intro hp hk hf
    exact ⟨fun d hd => hk ▸ hg.flight d (hf d hd), hp ▸ hk ▸ hg.printed⟩
  cases h with
  | foreign d ha =>
    refine hmono rfl rfl fun e he => ?_
    rw [mem_flight, Multiset.mem_cons] at he
    rw [mem_flight]
    exact he.imp_left fun he => he.resolve_left fun h => ha (Prod.ext_iff.1 h).1.symm
  | loseRequest hd =>
    refine hmono rfl rfl fun e he => ?_
    rw [mem_flight] at he ⊢
    rw [hd]
    exact he.imp_left (Multiset.mem_cons_of_mem ·)
  | loseAnswer hd =>
    refine hmono rfl rfl fun e he => ?_
    rw [mem_flight] at he ⊢
    rw [hd]
    exact he.imp_right (.imp_right (Multiset.mem_cons_of_mem ·))
  | dupRequest hd =>
    refine hmono rfl rfl fun e he => ?_
    rw [mem_flight, Multiset.mem_cons] at he
    rw [mem_flight]
    exact he.imp_left fun he => he.elim (· ▸ hd) id
  | dupAnswer hd =>
    refine hmono rfl rfl fun e he => ?_
    rw [mem_flight, Multiset.mem_cons] at he
    rw [mem_flight]
    exact he.imp_right (.imp_right fun he => he.elim (· ▸ hd) id)
  | stray d => simp at hr

/-- What happens to the client's datagrams when none is duplicated and none is strange: nothing,
or one is lost. -/
lemma clean_disturbs (h : Disturbs me s t) (hd : t.dups = s.dups) (hr : t.strays = s.strays) :
    t.client = s.client ∧ t.asked = s.asked ∧ t.printed = s.printed ∧
      (t.flight me = s.flight me ∧ t.lost = s.lost ∨
        ∃ d, s.flight me = d ::ₘ t.flight me ∧ t.lost = s.lost + 1) := by
  cases h with
  | foreign d ha =>
    refine ⟨rfl, rfl, rfl, .inl ⟨?_, rfl⟩⟩
    simp only [State.flight, Multiset.cons_bind, mine_other ha, zero_add]
  | @loseRequest a d rest hq =>
    refine ⟨rfl, rfl, rfl, ?_⟩
    by_cases ha : a = me
    · subst ha
      refine .inr ⟨d, ?_, by simp [own]⟩
      simp only [State.flight, hq, Multiset.cons_bind, mine_self, Multiset.singleton_add,
        Multiset.cons_add]
    · refine .inl ⟨?_, by simp [own, ha]⟩
      simp only [State.flight, hq, Multiset.cons_bind, mine_other ha, zero_add]
  | @loseAnswer d rest hq =>
    refine ⟨rfl, rfl, rfl, .inr ⟨d, ?_, rfl⟩⟩
    simp only [State.flight, hq, Multiset.add_cons]
  | @dupRequest a d hq =>
    have ha : a ≠ me := by
      rintro rfl
      simp [own] at hd
    refine ⟨rfl, rfl, rfl, .inl ⟨?_, by simp⟩⟩
    simp only [State.flight, Multiset.cons_bind, mine_other ha, zero_add]
  | dupAnswer hq => simp at hd
  | stray d => simp at hr

lemma single_disturbs (hs : Single me s) (h : Disturbs me s t) (hd : t.dups = s.dups)
    (hr : t.strays = s.strays) : Single me t := by
  obtain ⟨hc, hk, hp, ⟨hf, hl⟩ | ⟨d, hf, hl⟩⟩ := clean_disturbs h hd hr
  · -- nothing is lost
    cases hs with
    | quiet hc' hf' hl' hp' =>
      exact .quiet (by rwa [hc]) (by rw [hf, hf']) (by rw [hl, hl']) (by rw [hp, hk, hp'])
    | flying d hc' hf' hl' hp' =>
      exact .flying d (by rw [hc, hc']) (by rw [hf, hf']) (by rw [hl, hl']) (by rw [hp, hk, hp'])
    | stuck d hc' hf' hl' hp' =>
      exact .stuck d (by rw [hc, hc']) (by rw [hf, hf']) (by rw [hl, hl']) (by rw [hp, hk, hp'])
  · -- there was only one to lose
    cases hs with
    | quiet hc' hf' hl' hp' => simp [hf'] at hf
    | flying e hc' hf' hl' hp' =>
      have hlast : {e} = d ::ₘ t.flight me := hf'.symm.trans hf
      exact .stuck e (by rw [hc, hc']) ((Multiset.singleton_eq_cons_iff _).1 hlast).2
        (by rw [hl, hl']) (by rw [hp, hk, hp'])
    | stuck e hc' hf' hl' hp' => simp [hf'] at hf

/-- The parties do not count. -/
lemma works_counts (h : Works me s t) :
    t.lost = s.lost ∧ t.dups = s.dups ∧ t.strays = s.strays := by
  cases h <;> exact ⟨rfl, rfl, rfl⟩

lemma single_works (ha : Asks input s) (hs : Single me s) (h : Works me s t) : Single me t := by
  cases h with
  | send hc hl =>
    cases hs with
    | quiet hc' hf hl' hp =>
      refine .flying _ rfl ?_ hl' (by rw [hp])
      have hnew : s.flight me = 0 := hf
      simp only [State.flight, Multiset.cons_bind, mine_self] at hnew ⊢
      rw [add_assoc, add_assoc, ← add_assoc (Multiset.bind _ _), hnew, add_zero]
    | flying d hc' => simp [hc] at hc'
    | stuck d hc' => simp [hc] at hc'
  | eof hc hl =>
    cases hs with
    | quiet hc' hf hl' hp => exact .quiet (by simp) hf hl' hp
    | flying d hc' => simp [hc] at hc'
    | stuck d hc' => simp [hc] at hc'
  | @serverRecv b e rest hm hd =>
    have htake : b = me → e.take maxline = e := by
      rintro rfl
      have hmem : e ∈ s.flight b := mem_flight.2 (.inl (by simp [hd]))
      cases hs with
      | quiet hc' hf => simp [hf] at hmem
      | flying d hc' hf hl' hp =>
        obtain rfl : e = d := by simpa [hf] using hmem
        exact (ha.of_mem (by rw [hp]; simp)).1
      | stuck d hc' hf => simp [hf] at hmem
    have hflight := flight_serverRecv hm hd htake
    cases hs with
    | quiet hc' hf hl' hp => exact .quiet hc' (hflight.trans hf) hl' hp
    | flying d hc' hf hl' hp => exact .flying d hc' (hflight.trans hf) hl' hp
    | stuck d hc' hf hl' hp => exact .stuck d hc' (hflight.trans hf) hl' hp
  | serverSend hm =>
    have hflight : _ = s.flight me := flight_serverSend hm
    cases hs with
    | quiet hc' hf hl' hp => exact .quiet hc' (hflight.trans hf) hl' hp
    | flying d hc' hf hl' hp => exact .flying d hc' (hflight.trans hf) hl' hp
    | stuck d hc' hf hl' hp => exact .stuck d hc' (hflight.trans hf) hl' hp
  | @recv e rest hc hd =>
    have hflight : s.flight me = e ::ₘ State.flight me { s with toClient := rest } := by
      simp only [State.flight, hd, Multiset.add_cons]
    cases hs with
    | quiet hc' => exact absurd hc hc'
    | flying d hc' hf hl' hp =>
      rw [hf, Multiset.singleton_eq_cons_iff] at hflight
      obtain ⟨rfl, hrest⟩ := hflight
      have hmem : d ∈ s.asked := by
        rw [hp]
        simp
      refine .quiet (by simp) hrest hl' ?_
      simp only [hp, (ha.of_mem hmem).1, (ha.of_mem hmem).2]
    | stuck d hc' hf => simp [hf] at hflight

/-! ## Runs -/

/-- What is counted is not forgotten. -/
lemma counts_mono (h : Step me s t) :
    s.lost ≤ t.lost ∧ s.dups ≤ t.dups ∧ s.strays ≤ t.strays := by
  rcases h with h | h
  · obtain ⟨hl, hd, hr⟩ := works_counts h
    exact ⟨hl.ge, hd.ge, hr.ge⟩
  · cases h <;> simp

lemma asks_of_reachable (h : Reachable (· = State.start A input) (Step me) s) : Asks input s := by
  refine h.invariant (I := Asks input) ?_ fun s t _ hs hst => ?_
  · rintro s₀ rfl
    exact asks_start input
  · exact hst.elim (asks_works hs) (asks_disturbs hs)

lemma genuine_of_reachable (h : Reachable (· = State.start A input) (Step me) s)
    (hr : s.strays = 0) : Genuine me s := by
  refine h.invariant (I := fun s => s.strays = 0 → Genuine me s) ?_ (fun s t hs ih hst hr => ?_) hr
  · rintro s₀ rfl -
    exact ⟨by simp [State.flight, State.start], by simp [State.start]⟩
  · have hg := ih (Nat.eq_zero_of_le_zero (hr ▸ (counts_mono hst).2.2))
    rcases hst with hst | hst
    · exact genuine_works (asks_of_reachable hs) hg hst
    · exact genuine_disturbs hg hst hr

lemma single_of_reachable (h : Reachable (· = State.start A input) (Step me) s)
    (hd : s.dups = 0) (hr : s.strays = 0) : Single me s := by
  refine h.invariant (I := fun s => s.dups = 0 → s.strays = 0 → Single me s) ?_
    (fun s t hs ih hst hd hr => ?_) hd hr
  · rintro s₀ rfl - -
    exact .quiet (by simp [State.start]) rfl rfl rfl
  · have hd' := Nat.eq_zero_of_le_zero (hd ▸ (counts_mono hst).2.1)
    have hr' := Nat.eq_zero_of_le_zero (hr ▸ (counts_mono hst).2.2)
    rcases hst with hst | hst
    · exact single_works (asks_of_reachable hs) (ih hd' hr') hst
    · exact single_disturbs (ih hd' hr') hst (hd.trans hd'.symm) (hr.trans hr'.symm)

/-- The client prints one string for each line, and if no stranger sends to it, then the string is
that line or an earlier one. -/
theorem prints_what_was_asked (h : Reachable (· = State.start A input) (Step me) s) :
    s.stdout = s.printed.flatten ∧
      (s.client = .returned → s.printed.length = (inputLines maxline input).length) ∧
      (s.strays = 0 → ∀ (k : ℕ) (p : List UInt8), s.printed[k]? = some p →
        p ∈ ((inputLines maxline input).map cstr).take (k + 1)) := by
  have ha := asks_of_reachable h
  obtain ⟨before, hall, hasked⟩ := ha.sent
  refine ⟨ha.stdout, fun hc => ?_, fun hr k p hp => ?_⟩
  · have hcount := ha.count
    rw [if_neg (by simp [hc]), hasked] at hcount
    rw [hall, ha.returned hc]
    simpa [inputLines] using hcount
  · have hmem := (genuine_of_reachable h hr).printed k p hp
    rw [hasked] at hmem
    rw [hall, List.map_append]
    exact ((List.prefix_append _ _).take _).subset hmem

/-- An answer that is delivered twice is taken for the answer to the next line. -/
theorem prints_what_was_asked_sample : ∃ s : State ℕ,
    (∀ p, s.printed[1]? = some p → p ∈ ((inputLines maxline [65, 10, 66, 10]).map cstr).take 2) ∧
      s.printed = [[65, 10], [65, 10]] := by
  have h : Reachable (· = State.start ℕ [65, 10, 66, 10]) (Step 0) (State.start ℕ _) :=
    .of_init rfl
  have h := h.tail
    (t := ⟨.waiting, [66, 10], [], {(0, [65, 10])}, none, 0, [[65, 10]], [], 0, 0, 0⟩)
    (.inl (.send rfl (by decide)))
  have h := h.tail (.inl (@Works.serverRecv _ _ _ _ 0 [65, 10] 0 rfl rfl))
  have h := h.tail (.inl (.serverSend rfl))
  have h := h.tail (t := ⟨.waiting, [66, 10], [], 0, none, {[65, 10], [65, 10]}, [[65, 10]], [],
    0, 1, 0⟩) (.inr (@Disturbs.dupAnswer _ _ _ _ [65, 10] (by decide)))
  have h := h.tail (.inl (@Works.recv _ _ _ _ [65, 10] {[65, 10]} rfl rfl))
  have h := h.tail (.inl (.send rfl (by decide)))
  have h := h.tail (t := ⟨.fgets, [], [65, 10, 65, 10], {(0, [66, 10])}, none, 0,
    [[65, 10], [66, 10]], [[65, 10], [65, 10]], 0, 1, 0⟩)
    (.inl (@Works.recv _ _ _ _ [65, 10] 0 rfl rfl))
  exact ⟨_, (prints_what_was_asked h).2.2 rfl 1, rfl⟩

/-- Without duplicates and strays the answers come in order, and if the client returns, then none is
missing. -/
theorem answers_in_order (h : Reachable (· = State.start A input) (Step me) s)
    (hd : s.dups = 0) (hr : s.strays = 0) :
    s.printed <+: (inputLines maxline input).map cstr ∧
      (s.client = .returned → s.printed = (inputLines maxline input).map cstr) := by
  have ha := asks_of_reachable h
  obtain ⟨before, hall, hasked⟩ := ha.sent
  have hbegin : s.printed <+: s.asked := by
    cases single_of_reachable h hd hr with
    | quiet hc hf hl hp => rw [hp]
    | flying d hc hf hl hp => exact hp ▸ List.prefix_append _ _
    | stuck d hc hf hl hp => exact hp ▸ List.prefix_append _ _
  refine ⟨?_, fun hc => ?_⟩
  · rw [hall, List.map_append, ← hasked]
    exact hbegin.trans (List.prefix_append _ _)
  · have hcount := ha.count
    rw [if_neg (by simp [hc])] at hcount
    rw [hbegin.eq_of_length hcount, hasked, hall, ha.returned hc]
    simp [inputLines]

/-- The whole of a run with one line. -/
theorem answers_in_order_sample : ∃ s : State ℕ,
    s.printed <+: (inputLines maxline [65, 10]).map cstr ∧ s.client = .returned := by
  have h : Reachable (· = State.start ℕ [65, 10]) (Step 0) (State.start ℕ _) := .of_init rfl
  have h := h.tail (t := ⟨.waiting, [], [], {(0, [65, 10])}, none, 0, [[65, 10]], [], 0, 0, 0⟩)
    (.inl (.send rfl (by decide)))
  have h := h.tail (.inl (@Works.serverRecv _ _ _ _ 0 [65, 10] 0 rfl rfl))
  have h := h.tail (.inl (.serverSend rfl))
  have h := h.tail (.inl (@Works.recv _ _ _ _ [65, 10] 0 rfl rfl))
  have h := h.tail (.inl (.eof rfl rfl))
  exact ⟨_, (answers_in_order h rfl rfl).1, rfl⟩

/-! ## Whether the client can return -/

/-- While a datagram of the client is on its way, it can be answered. -/
lemma reply_of_flight (me : A) (hc : s.client = .waiting) (hd : d ∈ s.flight me) :
    ∃ t, Relation.ReflTransGen (Works me) s t ∧ t.client = .fgets ∧ t.stdin = s.stdin := by
  have hanswer : ∀ {s : State A} {d : List UInt8}, s.client = .waiting → d ∈ s.toClient →
      ∃ t, Relation.ReflTransGen (Works me) s t ∧ t.client = .fgets ∧ t.stdin = s.stdin := by
    intro s d hc hd
    obtain ⟨rest, hrest⟩ := Multiset.exists_cons_of_mem hd
    exact ⟨_, .single (.recv hc hrest), rfl, rfl⟩
  have hmesg : ∀ {s : State A} {d : List UInt8}, s.client = .waiting → s.mesg = some (me, d) →
      ∃ t, Relation.ReflTransGen (Works me) s t ∧ t.client = .fgets ∧ t.stdin = s.stdin := by
    intro s d hc hm
    have hstep : Works me s _ := .serverSend hm
    obtain ⟨t, hrun, ht⟩ := hanswer (d := d)
      (s := { s with mesg := none, toClient := if me = me then d ::ₘ s.toClient else s.toClient })
      hc (by simp)
    exact ⟨t, hrun.head hstep, ht⟩
  have hrequest : ∀ {s : State A}, s.client = .waiting → s.mesg = none → (me, d) ∈ s.toServer →
      ∃ t, Relation.ReflTransGen (Works me) s t ∧ t.client = .fgets ∧ t.stdin = s.stdin := by
    intro s hc hm hd
    obtain ⟨rest, hrest⟩ := Multiset.exists_cons_of_mem hd
    have hstep : Works me s _ := .serverRecv hm hrest
    obtain ⟨t, hrun, ht⟩ := hmesg
      (s := { s with toServer := rest, mesg := some (me, d.take maxline) }) hc rfl
    exact ⟨t, hrun.head hstep, ht⟩
  rcases mem_flight.1 hd with hd | hm | hd
  · -- the server first sends what it has
    rcases hm : s.mesg with - | ⟨b, e⟩
    · exact hrequest hc hm hd
    · have hstep : Works me s _ := .serverSend hm
      obtain ⟨t, hrun, ht⟩ := hrequest
        (s := { s with mesg := none, toClient := if b = me then e ::ₘ s.toClient else s.toClient })
        hc rfl hd
      exact ⟨t, hrun.head hstep, ht⟩
  · exact hmesg hc hm
  · exact hanswer hc hd

/-- Between two lines the client can go on to the end. -/
lemma finish_of_fgets (me : A) (s : State A) (hc : s.client = .fgets) :
    ∃ t, Relation.ReflTransGen (Works me) s t ∧ t.client = .returned := by
  by_cases hl : firstLine isNewline (maxline - 1) s.stdin = []
  · exact ⟨_, .single (.eof hc hl), rfl⟩
  · have hne : s.stdin ≠ [] := by
      intro hin
      simp [hin] at hl
    have hlt : (afterLine isNewline (maxline - 1) s.stdin).length < s.stdin.length :=
      afterLine_length_lt maxline_pos hne
    have hstep : Works me s _ := .send hc hl
    obtain ⟨t, hrun, ht, hin⟩ := reply_of_flight me (s := { s with
        client := .waiting
        stdin := afterLine isNewline (maxline - 1) s.stdin
        toServer := (me, cstr (firstLine isNewline (maxline - 1) s.stdin)) ::ₘ s.toServer
        asked := s.asked ++ [cstr (firstLine isNewline (maxline - 1) s.stdin)] })
      rfl (mem_flight.2 (.inl (Multiset.mem_cons_self _ _)))
    have hlt' : t.stdin.length < s.stdin.length := hin ▸ hlt
    obtain ⟨u, hrun', hu⟩ := finish_of_fgets me t ht
    exact ⟨u, (hrun.head hstep).trans hrun', hu⟩
termination_by s.stdin.length

/-- As long as there are no duplicates and strays, the client can still return if and only if none
of its datagrams was lost: it has no time-out. -/
theorem can_finish_iff (h : Reachable (· = State.start A input) (Step me) s)
    (hd : s.dups = 0) (hr : s.strays = 0) :
    (∃ t, Relation.ReflTransGen (Step me) s t ∧ t.dups = 0 ∧ t.strays = 0 ∧
      t.client = .returned) ↔ s.lost = 0 := by
  constructor
  · rintro ⟨t, hrun, htd, htr, hc⟩
    have hlost : t.lost = 0 := by
      cases single_of_reachable (h.trans hrun) htd htr with
      | quiet _ _ hl _ => exact hl
      | flying _ hc' _ _ _ => simp [hc] at hc'
      | stuck _ hc' _ _ _ => simp [hc] at hc'
    have hmono : s.lost ≤ t.lost := by
      clear htd htr hc hlost
      induction hrun with
      | refl => exact le_rfl
      | tail _ hst ih => exact ih.trans (counts_mono hst).1
    exact Nat.eq_zero_of_le_zero (hlost ▸ hmono)
  · intro hlost
    have hworks : ∃ t, Relation.ReflTransGen (Works me) s t ∧ t.client = .returned := by
      cases single_of_reachable h hd hr with
      | quiet hc hf _ _ =>
        cases hs : s.client with
        | fgets => exact finish_of_fgets me s hs
        | waiting => exact absurd hs hc
        | returned => exact ⟨s, .refl, hs⟩
      | flying d hc hf _ _ =>
        obtain ⟨t, hrun, ht, -⟩ := reply_of_flight me (d := d) hc (by simp [hf])
        obtain ⟨u, hrun', hu⟩ := finish_of_fgets me t ht
        exact ⟨u, hrun.trans hrun', hu⟩
      | stuck _ _ _ hl _ => omega
    obtain ⟨t, hrun, hc⟩ := hworks
    have hcounts : t.dups = s.dups ∧ t.strays = s.strays := by
      clear hc
      induction hrun with
      | refl => exact ⟨rfl, rfl⟩
      | tail _ hst ih =>
        exact ⟨(works_counts hst).2.1.trans ih.1, (works_counts hst).2.2.trans ih.2⟩
    exact ⟨t, Relation.ReflTransGen.mono (fun _ _ => .inl) _ _ hrun, hcounts.1.trans hd,
      hcounts.2.trans hr, hc⟩

/-- The request is lost. -/
theorem can_finish_sample : ∃ s : State ℕ,
    (¬ ∃ t, Relation.ReflTransGen (Step 0) s t ∧ t.dups = 0 ∧ t.strays = 0 ∧
      t.client = .returned) ∧ s.lost = 1 := by
  have h : Reachable (· = State.start ℕ [65, 10]) (Step 0) (State.start ℕ [65, 10]) :=
    .of_init rfl
  have h := h.tail (t := ⟨.waiting, [], [], {(0, [65, 10])}, none, 0, [[65, 10]], [], 0, 0, 0⟩)
    (.inl (.send rfl (by decide)))
  have h := h.tail (t := ⟨.waiting, [], [], 0, none, 0, [[65, 10]], [], 1, 0, 0⟩)
    (.inr (@Disturbs.loseRequest _ _ _ _ 0 [65, 10] 0 rfl))
  exact ⟨_, mt (can_finish_iff h rfl rfl).1 (by decide), rfl⟩

end CppExample.Udp.DatagramEcho
