import ClassVerifier.Instruction.Decode

/-! Code that lies elsewhere. An instruction is read from its own bytes alone, so the same bytes at
another offset are the same instruction, with its jump targets moved along. Only a switch depends on
the offset itself, by its padding. -/
namespace ClassVerifier

/-- The instruction with other jump targets. -/
def Instruction.retarget (f : Int → Int) : Instruction → Instruction
  | branch test target => branch test (f target)
  | jump target => jump (f target)
  | switch table => switch { table with targets := table.targets.map f }
  | i => i

/-- The instruction at another offset, with its jump targets at the same distances. -/
def Located.moved (i : Located) (b : Nat) : Located :=
  { i with
    offset := b
    instruction := i.instruction.retarget fun target =>
      Instruction.target b (target - i.offset) }

namespace Instruction

/-- From `b` on the first code reads as the second one from `b'` on. -/
def SameFrom (code : Array UInt8) (b : Nat) (code' : Array UInt8) (b' : Nat) : Prop :=
  ∀ k, code'[b' + k]? = code[b + k]?

variable {code code' : Array UInt8} {b b' : Nat}

namespace SameFrom

theorem wordAt?_eq (h : SameFrom code b code' b') (k : Nat) :
    wordAt? code' (b' + k) = wordAt? code (b + k) := by
  simp only [wordAt?, Nat.add_assoc, h k, h (k + 1)]

theorem intAt?_eq (h : SameFrom code b code' b') (k : Nat) :
    intAt? code' (b' + k) = intAt? code (b + k) := by
  simp only [intAt?, Nat.add_assoc, h.wordAt?_eq k, h.wordAt?_eq (k + 2)]

theorem intsAt?_eq (h : SameFrom code b code' b') (step count k : Nat) :
    intsAt? code' step count (b' + k) = intsAt? code step count (b + k) := by
  induction count generalizing k with
  | zero => rfl
  | succ count ih =>
    simp only [intsAt?, Nat.add_assoc, h.intAt?_eq k, ih (k + step)]

theorem fits?_eq (h : SameFrom code b code' b') {n : Nat} (positive : 0 < n) :
    fits? code' (b' + n) = fits? code (b + n) := by
  have last : code'.size ≤ b' + (n - 1) ↔ code.size ≤ b + (n - 1) := by
    rw [← Array.getElem?_eq_none_iff, ← Array.getElem?_eq_none_iff, h (n - 1)]
  have room : b' + n ≤ code'.size ↔ b + n ≤ code.size := by omega
  simp only [fits?, room]

theorem extract_eq (h : SameFrom code b code' b') (start stop : Nat) :
    (code'.extract (b' + start) (b' + stop)).toList =
      (code.extract (b + start) (b + stop)).toList := by
  refine List.ext_getElem? fun k => ?_
  simp only [Array.toList_extract, List.extract_eq_take_drop, List.getElem?_take,
    List.getElem?_drop, Array.getElem?_toList, Nat.add_assoc, h (start + k), Nat.add_sub_add_left]

end SameFrom

/-- A branch is as far from its target wherever it is. -/
private theorem target_moved (b b' : Nat) (offset : Int) :
    target b' (target b offset - b) = target b' offset := by
  unfold target signed
  rw [show (b' : Int) + ((b + offset).bmod (Nat.pow 2 32) - b) =
      (b' - b) + (b + offset).bmod (Nat.pow 2 32) by omega, Int.add_bmod_bmod]
  exact congrArg (Int.bmod · _) (by omega)

variable {n op : Nat} {i : Instruction} {move : Int → Int}

theorem retarget_of_targets (h : i.targets = []) : i.retarget move = i := by
  cases i with
  | switch table =>
    obtain ⟨padding, cases, targets⟩ := table
    cases (show targets = [] from h)
    rfl
  | branch | jump => cases h
  | _ => rfl

/-- An instruction that leads nowhere is the same everywhere. -/
private theorem map_retarget {x : Option Instruction} (h : x.all (·.targets = [])) :
    x.map (retarget move) = x := by
  cases x with
  | none => rfl
  | some i => exact congrArg some (retarget_of_targets (of_decide_eq_true h))

private theorem bare?_targets : ∀ op < 256, (bare? op).all (·.targets = []) := by decide +kernel

private theorem withByte?_targets (x : UInt8) : (withByte? op x).all (·.targets = []) := by
  simp [withByte?, apply_ite (Option.all _), targets]

private theorem widened?_targets (index : UInt16) : (widened? op index).all (·.targets = []) := by
  simp [widened?, apply_ite (Option.all _), targets]

private theorem withWord?_moved (b b' : Nat) (w : UInt16) :
    withWord? b' op w = (withWord? b op w).map (retarget fun there => target b' (there - b)) := by
  simp only [withWord?, apply_ite (Option.map _), Option.map_some, Option.map_none, retarget,
    target_moved]

/-- The instruction moved, and its length. -/
private def moveRead (b b' : Nat) (read : Instruction × Nat) : Instruction × Nat :=
  (read.1.retarget fun there => target b' (there - b), read.2)

private theorem long?_moved (h : SameFrom code b code' b') :
    long? code' b' op = (long? code b op).map (moveRead b b') := by
  unfold long?
  simp only [h.wordAt?_eq 1, h.intAt?_eq 1, h 3, h 4]
  split
  · cases code[b + 3]? <;> cases code[b + 4]? <;> cases wordAt? code (b + 1) <;> rfl
  · cases code[b + 3]? <;> cases code[b + 4]? <;> cases wordAt? code (b + 1) <;> rfl
  · cases code[b + 3]? <;> cases wordAt? code (b + 1) <;> rfl
  · cases intAt? code (b + 1) with
    | none => rfl
    | some offset => exact congrArg (fun there => some (jump there, 5)) (target_moved ..).symm
  · rfl
  · rfl

/-- The padding is as long at offsets that are as far from a multiple of four. -/
private theorem aligned_moved (even : b' % 4 = b % 4) : aligned b' = b' + (aligned b - b) := by
  unfold aligned
  omega

private theorem switch_moved {padding : List UInt8} {cases : SwitchCases} {offsets : List Int} :
    (switch ⟨padding, cases, offsets.map (target b')⟩, n) = moveRead b b'
      (switch ⟨padding, cases, offsets.map (target b)⟩, n) := by
  simp only [moveRead, retarget, List.map_map, Function.comp_def, target_moved]

private theorem tableSwitch?_moved (h : SameFrom code b code' b') (even : b' % 4 = b % 4) :
    tableSwitch? code' b' = (tableSwitch? code b).map (moveRead b b') := by
  obtain ⟨k, start⟩ : ∃ k, aligned b = b + k := ⟨aligned b - b, by unfold aligned; omega⟩
  have start' : aligned b' = b' + k := by
    rw [aligned_moved even, start, Nat.add_sub_cancel_left]
  simp only [tableSwitch?, start, start', Nat.add_assoc, h.intAt?_eq, h.intsAt?_eq, h.extract_eq,
    Nat.add_sub_cancel_left, Option.bind_eq_bind, Option.map_bind, Function.comp_def]
  refine Option.bind_congr fun low _ => Option.bind_congr fun high _ =>
    Option.bind_congr fun n hn => ?_
  rw [h.fits?_eq (switchLength?_pos hn)]
  refine Option.bind_congr fun _ _ => Option.bind_congr fun default _ =>
    Option.bind_congr fun offsets _ => ?_
  exact congrArg some switch_moved

private theorem lookupSwitch?_moved (h : SameFrom code b code' b') (even : b' % 4 = b % 4) :
    lookupSwitch? code' b' = (lookupSwitch? code b).map (moveRead b b') := by
  obtain ⟨k, start⟩ : ∃ k, aligned b = b + k := ⟨aligned b - b, by unfold aligned; omega⟩
  have start' : aligned b' = b' + k := by
    rw [aligned_moved even, start, Nat.add_sub_cancel_left]
  simp only [lookupSwitch?, start, start', Nat.add_assoc, h.intAt?_eq, h.intsAt?_eq, h.extract_eq,
    Nat.add_sub_cancel_left, Option.bind_eq_bind, Option.map_bind, Function.comp_def]
  refine Option.bind_congr fun count _ => Option.bind_congr fun n hn => ?_
  rw [h.fits?_eq (switchLength?_pos hn)]
  refine Option.bind_congr fun _ _ => Option.bind_congr fun default _ =>
    Option.bind_congr fun keys _ => Option.bind_congr fun offsets _ => ?_
  exact congrArg some switch_moved

private theorem operands?_moved (h : SameFrom code b code' b') (small : op < 256)
    (even : b' % 4 = b % 4 ∨ op ≠ 0xaa ∧ op ≠ 0xab) :
    operands? code' b' op = (operands? code b op).map (moveRead b b') := by
  unfold operands?
  split
  · rw [h 1]
    cases code[b + 1]? <;> rfl
  · exact tableSwitch?_moved h (even.resolve_right fun other => other.1 rfl)
  · exact lookupSwitch?_moved h (even.resolve_right fun other => other.2 rfl)
  · have moved (x : Option Instruction) (n : Nat) : (x.map (·, n)).map (moveRead b b') =
        (x.map (retarget fun there => target b' (there - b))).map (·, n) := by
      rw [Option.map_map, Option.map_map]
      rfl
    have byte : ((code[b + 1]?).bind (withByte? op)).all (·.targets = []) := by
      cases code[b + 1]? with
      | none => rfl
      | some x => exact withByte?_targets x
    have word : (wordAt? code (b + 1)).bind (withWord? b' op) =
        ((wordAt? code (b + 1)).bind (withWord? b op)).map
          (retarget fun there => target b' (there - b)) := by
      rw [Option.map_bind]
      exact Option.bind_congr fun w _ => withWord?_moved b b' w
    simp only [Option.orElse_eq_orElse, Option.orElse_eq_or, Option.map_or, moved, h 1,
      h.wordAt?_eq 1, map_retarget (bare?_targets op small), map_retarget byte, word, long?_moved h]

/-- The same bytes are the same instruction at another offset. Where they are a switch, the offsets
have to lie alike between multiples of four. -/
theorem decode?_moved (h : SameFrom code b code' b')
    (even : b' % 4 = b % 4 ∨ code[b]? ≠ some 0xaa ∧ code[b]? ≠ some 0xab) :
    decode? code' b' = (decode? code b).map (·.moved b') := by
  have first : code'[b']? = code[b]? := h 0
  simp only [decode?, first, h 1, h.wordAt?_eq 2, Option.bind_eq_bind, Option.map_bind,
    Function.comp_def]
  refine Option.bind_congr fun op hop => ?_
  split
  · simp only [Option.map_bind, Function.comp_def]
    refine Option.bind_congr fun wide _ => Option.bind_congr fun index _ =>
      Option.bind_congr fun i hi => ?_
    have positive : 0 < if wide = 0x84 then 6 else 4 := by split <;> decide
    rw [h.fits?_eq positive]
    refine Option.bind_congr fun _ _ => ?_
    have fixed : (widened? wide.toNat index).all (·.targets = []) := widened?_targets index
    rw [hi] at fixed
    simp only [Option.pure_def, Option.map_some, Located.moved,
      retarget_of_targets (of_decide_eq_true fixed)]
  · have plain : b' % 4 = b % 4 ∨ op.toNat ≠ 0xaa ∧ op.toNat ≠ 0xab := by
      refine even.imp_right fun other => ⟨fun same => other.1 ?_, fun same => other.2 ?_⟩
      · exact hop.trans (congrArg some (UInt8.toNat_inj.1 same))
      · exact hop.trans (congrArg some (UInt8.toNat_inj.1 same))
    rw [operands?_moved h (UInt8.toNat_lt op) plain]
    cases hi : operands? code b op.toNat with
    | none => rfl
    | some read =>
      simp only [Option.map_some, Option.bind_some, moveRead, h.fits?_eq (operands?_pos hi)]
      cases fits? code (b + read.2) <;> rfl

end Instruction
end ClassVerifier
