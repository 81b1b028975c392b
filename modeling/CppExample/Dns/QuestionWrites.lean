/-
# Where the question encoder writes

`dns_create_question` allocates `strlen(hostname) + 2` bytes and then writes, for each token,
its length, its text and one byte more, the NUL.  `tokenWrites` lists these writes in their
order, and the token loop is the sequence of them.  They stay inside the allocation because
of the invariant `Room`: for every byte of the host name that `strtok` has not consumed there
is a cell behind `qname_p`, and there are two more.  A token takes one cell more than it has
bytes, but the delimiter behind it pays for that; when there is none, nothing is left.
-/
import CppExample.Dns.Question

namespace CppExample.Dns
open Lib

/-- The writes of the token loop, at `qname_p` with `rest` of the duplicated host name still
to be cut into tokens: where each begins and what it writes. -/
def tokenWrites (qnameP : ℕ) (rest : List UInt8) : List (ℕ × List UInt8) :=
  match _h : strtok rest dot with
  | none => []
  | some (token, rest') =>
    (qnameP, [UInt8.ofNat token.length]) :: (qnameP + 1, token ++ [0])
      :: tokenWrites (qnameP + 1 + token.length) rest'
termination_by rest.length
decreasing_by exact strtok_rest_length_lt _h

lemma tokenWrites_of_none {qnameP : ℕ} {rest : List UInt8} (h : strtok rest dot = none) :
    tokenWrites qnameP rest = [] := by
  rw [tokenWrites]
  split
  · rfl
  · next h' => rw [h] at h'; cases h'

lemma tokenWrites_of_some {qnameP : ℕ} {rest token rest' : List UInt8}
    (h : strtok rest dot = some (token, rest')) :
    tokenWrites qnameP rest
      = (qnameP, [UInt8.ofNat token.length]) :: (qnameP + 1, token ++ [0])
          :: tokenWrites (qnameP + 1 + token.length) rest' := by
  rw [tokenWrites]
  split
  · next h' => rw [h] at h'; cases h'
  · next h' =>
    rw [h] at h'
    cases h'
    rfl

/-- A write of bytes, as a write of cells. -/
def cells (x : ℕ × List UInt8) : ℕ × List (Option UInt8) := (x.1, x.2.map some)

/-- The token loop does the writes of `tokenWrites`, and nothing else. -/
lemma questionLoop_eq_storeAll (qname : List (Option UInt8)) (qnameP : ℕ) (rest : List UInt8) :
    questionLoop qname qnameP rest = storeAll qname ((tokenWrites qnameP rest).map cells) := by
  induction qnameP, rest using tokenWrites.induct generalizing qname with
  | case1 qnameP rest h =>
    rw [questionLoop_of_none h, tokenWrites_of_none h]
    rfl
  | case2 qnameP rest token rest' h ih =>
    rw [questionLoop_of_some h, tokenWrites_of_some h, List.map_cons, List.map_cons,
      storeAll_cons]
    refine bind_congr fun qname₁ => ?_
    rw [storeAll_cons]
    exact bind_congr fun qname₂ => ih qname₂

/-! ## The invariant of the loop -/

/-- The invariant of the token loop, with `n` bytes allocated: the bytes that `strtok` has
not consumed fit behind `qname_p`, with a length byte and a NUL. -/
def Room (n qnameP : ℕ) (rest : List UInt8) : Prop := rest = [] ∨ qnameP + rest.length + 2 ≤ n

lemma room_start (hostname : List UInt8) : Room (hostname.length + 2) 0 hostname :=
  Or.inr (by omega)

/-- One round of the loop: its two writes stay inside, and the invariant is kept. -/
lemma Room.round {n qnameP : ℕ} {rest token rest' : List UInt8} (h : Room n qnameP rest)
    (hstr : strtok rest dot = some (token, rest')) :
    qnameP + 1 + (token.length + 1) ≤ n ∧ Room n (qnameP + 1 + token.length) rest' := by
  obtain ⟨-, htoken, hrest⟩ := length_of_strtok hstr
  rcases h with rfl | h
  · cases hstr
  · refine ⟨by omega, hrest.imp_right fun hrest => ?_⟩
    omega

/-- All rounds. -/
lemma Room.writes {n qnameP : ℕ} {rest : List UInt8} (h : Room n qnameP rest) :
    ∀ x ∈ tokenWrites qnameP rest, x.1 + x.2.length ≤ n := by
  induction qnameP, rest using tokenWrites.induct with
  | case1 qnameP rest hstr =>
    rw [tokenWrites_of_none hstr]
    exact fun x hx => absurd hx List.not_mem_nil
  | case2 qnameP rest token rest' hstr ih =>
    obtain ⟨hinside, hroom⟩ := h.round hstr
    rw [tokenWrites_of_some hstr, List.forall_mem_cons, List.forall_mem_cons]
    refine ⟨?_, ?_, ih hroom⟩
    · rw [List.length_singleton]
      omega
    · rwa [List.length_append, List.length_singleton]

/-- **The encoder writes inside its allocation.**  For every host name, the token loop is the
sequence of the writes of `tokenWrites`, each byte of them has its cell among the
`strlen(hostname) + 2` cells of `qname`, and so `dns_create_question` does not go wrong. -/
theorem dnsCreateQuestion_writes (hostname : List UInt8) :
    (∀ qname, questionLoop qname 0 hostname
      = storeAll qname ((tokenWrites 0 hostname).map cells)) ∧
    (∀ x ∈ tokenWrites 0 hostname, ∀ i < x.2.length, x.1 + i < hostname.length + 2) ∧
    ∀ malloc, ∃ r, dnsCreateQuestion malloc hostname = .ok r := by
  have hinside := (room_start hostname).writes
  refine ⟨fun qname => questionLoop_eq_storeAll qname 0 hostname, fun x hx i hi => ?_,
    fun malloc => ?_⟩
  · exact (Nat.add_lt_add_left hi x.1).trans_le (hinside x hx)
  · cases malloc with
    | false => exact ⟨_, rfl⟩
    | true =>
      obtain ⟨qname, hloop⟩ : ∃ qname, questionLoop (List.replicate (hostname.length + 2) none)
          0 hostname = .ok qname := by
        rw [questionLoop_eq_storeAll, storeAll_ok_iff, List.forall_mem_map]
        intro x hx
        simpa [cells] using hinside x hx
      simp only [dnsCreateQuestion, if_true, hloop, ok_bind]
      exact ⟨_, rfl⟩

/-- Dots in front of the name, between its labels and behind it: the writes for `..a..bc.`. -/
example : tokenWrites 0 [dot, dot, 97, dot, dot, 98, 99, dot]
    = [(0, [1]), (1, [97, 0]), (2, [2]), (3, [98, 99, 0])] := by
  have h₁ : strtok [dot, dot, 97, dot, dot, 98, 99, dot] dot = some ([97], [dot, 98, 99, dot]) := by
    decide
  have h₂ : strtok [dot, 98, 99, dot] dot = some ([98, 99], []) := by decide
  rw [tokenWrites_of_some h₁, tokenWrites_of_some h₂, tokenWrites_of_none (by decide)]
  rfl

end CppExample.Dns
