import ClassVerifier.Proofs.InstructionHeaders
import ClassVerifier.Proofs.InstructionStarts

/-! The listing of a body against the chain of offsets that lengths alone give. It holds the whole
chain if that gets to the end of the code, and else names the first offset of it that is illegal. -/
namespace ClassVerifier

namespace Instruction
variable {code : Array UInt8} {b c k : Nat} {i : Located}

/-- The offset behind the instruction at `b`, if it has a positive length that fits into the
code. -/
def next? (code : Array UInt8) (b : Nat) : Option Nat := do
  let length ← extent? code b
  if 0 < length ∧ b + length ≤ code.size then some (b + length.toNat) else none

/-- The offset that is so many instructions behind `b`. -/
def chain? (code : Array UInt8) : Nat → Nat → Option Nat
  | b, 0 => some b
  | b, k + 1 => (next? code b).bind fun c => chain? code c k

theorem lt_of_next? (h : next? code b = some c) : b < c ∧ c ≤ code.size := by
  simp only [next?, Option.bind_eq_bind, Option.bind_eq_some_iff] at h
  obtain ⟨length, _, h⟩ := h
  split at h
  · cases h
    omega
  · cases h

theorem next?_of_decode? (small : code.size ≤ 65535) (h : decode? code b = some i) :
    next? code b = some i.next := by
  obtain ⟨extent, positive, room⟩ := (decode?_extent_iff small).1 ⟨i, h, rfl⟩
  have next : i.next = b + i.length := congrArg (· + i.length) (decode?_offset h)
  rw [next?, extent, Option.bind_eq_bind, Option.bind_some, if_pos ⟨by omega, by omega⟩, next]
  rfl

theorem decode?_of_next? (small : code.size ≤ 65535) (h : next? code b = some c) :
    ∃ i, decode? code b = some i := by
  simp only [next?, Option.bind_eq_bind, Option.bind_eq_some_iff] at h
  obtain ⟨length, extent, h⟩ := h
  split at h
  · next fit => exact exists_decode? small extent fit.1 fit.2
  · cases h

/-- Every instruction takes at least one byte. -/
theorem add_le_of_chain? (h : chain? code b k = some c) : b + k ≤ c := by
  induction k generalizing b with
  | zero =>
    cases h
    exact Nat.le_refl _
  | succ k ih =>
    obtain ⟨d, next, rest⟩ := Option.bind_eq_some_iff.1 h
    have := lt_of_next? next
    have := ih rest
    omega

/-- Below the end of a chain there are instructions. -/
theorem decode?_of_chain? (small : code.size ≤ 65535) {j : Nat} {d : Nat}
    (h : chain? code b k = some c) (lt : j < k) (at_j : chain? code b j = some d) :
    ∃ i, decode? code d = some i := by
  induction k generalizing b j with
  | zero => exact absurd lt (Nat.not_lt_zero j)
  | succ k ih =>
    obtain ⟨e, next, rest⟩ := Option.bind_eq_some_iff.1 h
    cases j with
    | zero =>
      cases at_j
      exact decode?_of_next? small next
    | succ j =>
      rw [chain?, next, Option.bind_some] at at_j
      exact ih rest (Nat.lt_of_succ_lt_succ lt) at_j

theorem chain?_of_decode? (small : code.size ≤ 65535) (h : decode? code b = some i) (k : Nat) :
    chain? code b (k + 1) = chain? code i.next k := by
  rw [chain?, next?_of_decode? small h, Option.bind_some]

end Instruction

namespace Listing
open Instruction
variable {code : Array UInt8} {b c : Nat} {i : Located} {is before body : List Located}
  {l : Listing}

namespace Covers

/-- Instructions that follow each other to the end of the code start where the chain goes, and the
chain gets to that end behind them. -/
theorem chain (small : code.size ≤ 65535) (h : Covers code b is) (inside : b ≤ code.size) :
    chain? code b is.length = some code.size ∧
      ∀ c, (∃ i ∈ is, i.offset = c) ↔ ∃ k < is.length, chain? code b k = some c := by
  induction h with
  | done behind =>
    refine ⟨congrArg some (Nat.le_antisymm inside behind), fun c => iff_of_false ?_ ?_⟩
    · rintro ⟨i, hi, _⟩
      cases hi
    · rintro ⟨k, lt, _⟩
      exact absurd lt (Nat.not_lt_zero k)
  | @cons b i is lt decoded follow ih =>
    obtain ⟨last, starts⟩ := ih (lt_of_next? (next?_of_decode? small decoded)).2
    have later := chain?_of_decode? small decoded
    refine ⟨(later is.length).trans last, fun c => ⟨?_, ?_⟩⟩
    · rintro ⟨j, hj, rfl⟩
      rcases List.mem_cons.1 hj with rfl | hj
      · exact ⟨0, Nat.succ_pos _, congrArg some (decode?_offset decoded).symm⟩
      · obtain ⟨k, lt, at_k⟩ := (starts j.offset).1 ⟨j, hj, rfl⟩
        exact ⟨k + 1, Nat.succ_lt_succ lt, (later k).trans at_k⟩
    · rintro ⟨k, lt, at_k⟩
      cases k with
      | zero => exact ⟨i, List.mem_cons_self, (decode?_offset decoded).trans (Option.some.inj at_k)⟩
      | succ k =>
        obtain ⟨j, hj, he⟩ := (starts c).2 ⟨k, Nat.lt_of_succ_lt_succ lt, (later k).symm.trans at_k⟩
        exact ⟨j, List.mem_cons_of_mem _ hj, he⟩

/-- What follows an instruction of a listing, and the instruction itself, follow each other to the
end as well. -/
theorem suffix (h : Covers code b (before ++ i :: is)) : Covers code i.offset (i :: is) := by
  induction before generalizing b with
  | nil => exact h.head_offset rfl ▸ h
  | cons j before ih =>
    cases h with
    | cons _ _ follow => exact ih follow

theorem scan_eq (h : Covers code b is) : scan code b before = (before.reverse ++ is, none) := by
  induction h generalizing before with
  | done behind =>
    rw [scan, dif_neg (Nat.not_lt.2 behind), List.append_nil]
  | cons lt decoded follow ih =>
    rw [scan, dif_pos lt]
    split
    · next read =>
      cases decoded.symm.trans read
      rw [ih, List.reverse_cons, List.append_assoc]
      rfl
    · next nothing => cases decoded.symm.trans nothing

end Covers

/-- A scan that is refused somewhere has come to that place along the chain. -/
theorem scan_refused (small : code.size ≤ 65535) (h : scan code b before = (body, some c)) :
    ∃ k, chain? code b k = some c ∧ c < code.size ∧ decode? code c = none := by
  fun_induction scan code b before with
  | case1 b before lt i decoded ih =>
    obtain ⟨k, at_k, refused⟩ := ih h
    exact ⟨k + 1, (chain?_of_decode? small decoded k).trans at_k, refused⟩
  | case2 b before lt nothing =>
    cases h
    exact ⟨0, rfl, lt, nothing⟩
  | case3 => cases h

/-- The starts in a listing are the chain from the first byte to the end of the code. -/
private theorem isStart_iff_chain (small : code.size ≤ 65535) (listed : ofCode code = .ok l) :
    ∃ n ≤ code.size, chain? code 0 n = some code.size ∧
      ∀ b, l.isStart b ↔ ∃ k < n, chain? code 0 k = some b := by
  obtain ⟨last, starts⟩ := (covers_ofCode listed).chain small (Nat.zero_le _)
  have short := add_le_of_chain? last
  rw [Nat.zero_add] at short
  exact ⟨l.body.length, short, last, fun b => (isStart_iff listed).trans (starts b)⟩

/-- A listing knows of an allocation just where the opcode for one is that of an instruction. -/
private theorem allocation?_isSome_iff (listed : ofCode code = .ok l) :
    (l.allocation? b).isSome ↔ l.isStart b ∧ code[b]? = some 0xbb := by
  have allocates : (l.allocation? b).isSome ↔ ∃ i, l.at? b = some i ∧ i.instruction.isNew := by
    unfold allocation?
    split
    · next found => exact iff_of_true rfl ⟨_, found, rfl⟩
    · next other =>
      refine iff_of_false nofun ?_
      rintro ⟨⟨_, _, _, instruction⟩, found, new⟩
      cases instruction with
      | new index => exact other _ _ _ _ found
      | _ => cases new
  have read {i : Located} (found : l.at? b = some i) : decode? code b = some i := by
    obtain ⟨hi, rfl⟩ := (at?_eq_some_iff listed).1 found
    exact ((covers_ofCode listed).mem hi).1
  rw [allocates, isStart, Option.isSome_iff_exists]
  constructor
  · rintro ⟨i, found, new⟩
    exact ⟨⟨i, found⟩, (isNew_iff_of_decode? (read found)).1 new⟩
  · rintro ⟨⟨i, found⟩, first⟩
    exact ⟨i, found, (isNew_iff_of_decode? (read found)).2 first⟩

/-- A scan from a start in the listing passes over what is listed from there on. -/
private theorem scan_of_isStart (listed : ofCode code = .ok l) (start : l.isStart b) :
    ∃ is, scan code b = (is, none) ∧ is.Pairwise (·.offset < ·.offset) ∧
      ∀ i, i ∈ is ↔ b ≤ i.offset ∧ l.at? i.offset = some i := by
  have covers := covers_ofCode listed
  obtain ⟨i, hi, rfl⟩ := (isStart_iff listed).1 start
  obtain ⟨before, rest, body⟩ := List.append_of_mem hi
  have behind := (body ▸ covers).suffix
  refine ⟨i :: rest, behind.scan_eq, behind.ascending, fun j => ⟨fun hj => ?_, ?_⟩⟩
  · refine ⟨(behind.mem hj).2.1, (at?_eq_some_iff listed).2 ⟨?_, rfl⟩⟩
    rw [body]
    exact List.mem_append_right _ hj
  · rintro ⟨later, found⟩
    obtain ⟨hj, -⟩ := (at?_eq_some_iff listed).1 found
    rw [body] at hj
    refine (List.mem_append.1 hj).resolve_left fun hj => ?_
    have ascending := covers.ascending
    rw [body] at ascending
    have earlier := (List.pairwise_append.1 ascending).2.2 j hj i List.mem_cons_self
    omega

/-- Where there is no listing, the first offset of the chain that is illegal is the one reported. -/
private theorem illegal_of_refused (small : code.size ≤ 65535) (refused : ofCode code = .error b) :
    ∃ k, b < code.size ∧ chain? code 0 k = some b ∧ Illegal code b ∧
      ∀ j < k, ∀ c, chain? code 0 j = some c → ¬Illegal code c := by
  unfold ofCode at refused
  split at refused
  · next stopped =>
    cases refused
    obtain ⟨k, at_k, inside, nothing⟩ := scan_refused small stopped
    refine ⟨k, inside, at_k, (decode?_eq_none_iff small inside).1 nothing, fun j lt c at_j => ?_⟩
    obtain ⟨i, read⟩ := decode?_of_chain? small at_k lt at_j
    obtain ⟨_, positive, room⟩ := (decode?_extent_iff small).1 ⟨i, read, rfl⟩
    rw [← decode?_eq_none_iff small (by omega), read]
    nofun
  · cases refused

end Listing

open Instruction (chain? header? Illegal)

/-- The listing of a body holds the chain of offsets from its first byte on, each followed by the
one behind its instruction, up to the end of the code. Those of them with the opcode for it
allocate, opcodes and widening prefixes are those in the code, and a scan from any of them passes
over what is listed from there on and never fails. Where there is no listing, the first illegal
offset of the chain is reported. -/
theorem Code.listing_exact (code : Code) (small : code.bytes.size ≤ 65535) :
    (∀ l, code.listing = .ok l →
      (∃ n ≤ code.bytes.size, chain? code.bytes 0 n = some code.bytes.size ∧
        ∀ b, l.isStart b ↔ ∃ k < n, chain? code.bytes 0 k = some b) ∧
      (∀ b, (l.allocation? b).isSome ↔ l.isStart b ∧ code.bytes[b]? = some 0xbb) ∧
      (∀ b i, l.at? b = some i → header? code.bytes b = some (i.opcode, i.isWide)) ∧
      ∀ b, l.isStart b → ∃ is, Listing.scan code.bytes b = (is, none) ∧
        is.Pairwise (·.offset < ·.offset) ∧
        ∀ i, i ∈ is ↔ b ≤ i.offset ∧ l.at? i.offset = some i) ∧
    ∀ cause, code.listing = .error cause →
      ∃ k b, cause = .illegalInstruction b ∧ b < code.bytes.size ∧
        chain? code.bytes 0 k = some b ∧ Illegal code.bytes b ∧
        ∀ j < k, ∀ c, chain? code.bytes 0 j = some c → ¬Illegal code.bytes c := by
  constructor
  · intro l listed
    have listed := Code.listing_ok.1 listed
    refine ⟨Listing.isStart_iff_chain small listed, fun b => Listing.allocation?_isSome_iff listed,
      fun b i found => ?_, fun b => Listing.scan_of_isStart listed⟩
    obtain ⟨hi, rfl⟩ := (Listing.at?_eq_some_iff listed).1 found
    exact Instruction.header?_of_decode? ((Listing.covers_ofCode listed).mem hi).1
  · intro cause refused
    obtain ⟨b, rfl, stopped⟩ := Code.listing_error.1 refused
    obtain ⟨k, first⟩ := Listing.illegal_of_refused small stopped
    exact ⟨k, b, rfl, first⟩

/-- Allocates an object, removes it, and loads the variable behind the first 256 ones. -/
def Code.distantLoad : Code where
  maxStack := 1
  maxLocals := 257
  bytes := #[0xbb, 0x00, 0x02, 0x57, 0xc4, 0x15, 0x01, 0x00, 0xac]

/-- A scan from the prefix of the load on passes over the load and over what follows it. -/
theorem Code.listing_exact_distantLoad :
    distantLoad.bytes.size ≤ 65535 ∧ ∃ l, distantLoad.listing = .ok l ∧
      (l.allocation? 0).isSome ∧ ¬(l.allocation? 3).isSome ∧
      ∃ is, Listing.scan distantLoad.bytes 4 = (is, none) ∧
        ∀ i, i ∈ is ↔ 4 ≤ i.offset ∧ l.at? i.offset = some i := by
  have small : distantLoad.bytes.size ≤ 65535 := by decide
  obtain ⟨listed, -⟩ := distantLoad.listing_exact small
  have starts : (match distantLoad.listing with
      | .ok l => l.isStart 0 && l.isStart 4
      | .error _ => false) = true := by decide +kernel
  cases found : distantLoad.listing with
  | error cause =>
    rw [found] at starts
    cases starts
  | ok l =>
    rw [found] at starts
    obtain ⟨first, fourth⟩ := (Bool.and_eq_true _ _).mp starts
    obtain ⟨-, allocates, -, scans⟩ := listed l found
    obtain ⟨is, scan, -, passed⟩ := scans 4 fourth
    refine ⟨small, l, rfl, (allocates 0).2 ⟨first, rfl⟩, ?_, is, scan, passed⟩
    rw [allocates]
    rintro ⟨-, h⟩
    revert h
    decide

end ClassVerifier
