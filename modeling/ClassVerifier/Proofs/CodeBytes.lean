import ClassVerifier.Instruction.Decode
import ClassVerifier.Proofs.ExactReading

/-! Bytes that lie in code at some offset, and the numbers read out of them. -/
namespace ClassVerifier
open Reader (wordBytes)

/-- An integer in four bytes, the highest first. -/
def intBytes (x : Int32) : List UInt8 :=
  wordBytes (x.toUInt32 >>> 16).toUInt16 ++ wordBytes x.toUInt32.toUInt16

/-- The two halves of an integer make it up again. -/
private theorem joined_halves (x : Int32) :
    Instruction.signed 32 ((x.toUInt32 >>> 16).toUInt16.toNat * 65536 +
      x.toUInt32.toUInt16.toNat : Nat) = x.toInt := by
  have bound := x.toUInt32.toNat_lt
  have high : (x.toUInt32 >>> 16).toUInt16.toNat = x.toUInt32.toNat / 2 ^ 16 := by
    rw [UInt32.toNat_toUInt16, UInt32.toNat_shiftRight]
    change x.toUInt32.toNat >>> 16 % 2 ^ 16 = _
    rw [Nat.shiftRight_eq_div_pow]
    omega
  have whole : (x.toUInt32 >>> 16).toUInt16.toNat * 65536 + x.toUInt32.toUInt16.toNat =
      x.toUInt32.toNat := by
    rw [high, UInt32.toNat_toUInt16]
    omega
  rw [whole]
  exact (BitVec.toInt_eq_toNat_bmod x.toBitVec).symm

namespace Instruction
variable {code : Array UInt8} {b : Nat} {xs ys : List UInt8}

/-- The bytes lie in the code from the offset on. -/
def Lies (code : Array UInt8) (b : Nat) (bytes : List UInt8) : Prop :=
  ∃ before after, code.toList = before ++ (bytes ++ after) ∧ before.length = b

namespace Lies

theorem left (h : Lies code b (xs ++ ys)) : Lies code b xs := by
  obtain ⟨before, after, he, hb⟩ := h
  exact ⟨before, ys ++ after, by rw [he, List.append_assoc], hb⟩

theorem right (h : Lies code b (xs ++ ys)) : Lies code (b + xs.length) ys := by
  obtain ⟨before, after, he, rfl⟩ := h
  exact ⟨before ++ xs, after, by rw [he]; simp only [List.append_assoc], List.length_append⟩

theorem room (h : Lies code b xs) : b + xs.length ≤ code.size := by
  obtain ⟨before, after, he, rfl⟩ := h
  rw [← Array.length_toList, he]
  simp only [List.length_append]
  omega

/-- Bytes stay where they are when the code is cut off behind them. -/
theorem cut (h : Lies code b xs) : Lies (code.extract 0 (b + xs.length)) b xs := by
  obtain ⟨before, after, he, rfl⟩ := h
  refine ⟨before, [], ?_, rfl⟩
  rw [Array.toList_extract, List.extract_eq_take_drop, List.drop_zero, Nat.sub_zero, he,
    ← List.append_assoc, ← List.length_append, List.take_left, List.append_nil]

theorem extract_eq (h : Lies code b xs) : (code.extract b (b + xs.length)).toList = xs := by
  obtain ⟨before, after, he, rfl⟩ := h
  rw [Array.toList_extract, List.extract_eq_take_drop, he, List.drop_left, Nat.add_sub_cancel_left,
    List.take_left]

theorem byte {x : UInt8} (h : Lies code b (x :: xs)) : code[b]? = some x := by
  obtain ⟨before, after, he, rfl⟩ := h
  rw [← Array.getElem?_toList, he, List.getElem?_append_right (Nat.le_refl _), Nat.sub_self]
  rfl

theorem tail {x : UInt8} (h : Lies code b (x :: xs)) : Lies code (b + 1) xs := by
  have whole : Lies code b ([x] ++ xs) := h
  exact whole.right

theorem word {w : UInt16} (h : Lies code b (wordBytes w)) : wordAt? code b = some w := by
  rw [wordAt?, h.byte, h.tail.byte]
  exact congrArg some (Reader.joined_wordBytes w)

theorem int {x : Int32} (h : Lies code b (intBytes x)) : intAt? code b = some x.toInt := by
  have low : wordAt? code (b + 2) = some x.toUInt32.toUInt16 := h.right.word
  rw [intAt?, h.left.word, low]
  exact congrArg some (joined_halves x)

/-- One integer of each item is read, where all items take as many bytes as are stepped over. -/
theorem ints {α : Type} {items : List α} {layout : α → List UInt8} {value : α → Int32}
    {step k : Nat} (sizes : ∀ a, (layout a).length = step)
    (inside : ∀ {b a}, Lies code b (layout a) → Lies code (b + k) (intBytes (value a)))
    (h : Lies code b (items.flatMap layout)) :
    intsAt? code step items.length (b + k) = some (items.map fun a => (value a).toInt) := by
  induction items generalizing b with
  | nil => rfl
  | cons a items ih =>
    rw [List.flatMap_cons] at h
    have rest := ih h.right
    rw [sizes, Nat.add_right_comm] at rest
    rw [List.length_cons, intsAt?, (inside h.left).int, rest]
    rfl

end Lies

variable {n : Nat} {op : UInt8} {i : Instruction}

theorem decode?_of_operands? (first : code[b]? = some op) (plain : op ≠ 0xc4)
    (read : operands? code b op.toNat = some (i, n)) (room : b + n ≤ code.size) :
    decode? code b = some ⟨b, op, n, i⟩ := by
  have fits : fits? code (b + n) = some () := if_pos room
  simp only [decode?, first, plain, read, fits, if_false, Option.bind_eq_bind, Option.bind_some,
    Option.pure_def]

/-- Most opcodes are looked up in one table after the other. -/
private theorem operands?_of_ordinary {op : Nat} (h : op ≠ 0x84 ∧ op ≠ 0xaa ∧ op ≠ 0xab) :
    operands? code b op = ((bare? op).map (·, 1) <|>
      ((code[b + 1]?).bind (withByte? op)).map (·, 2) <|>
      ((wordAt? code (b + 1)).bind (withWord? b op)).map (·, 3) <|> long? code b op) := by
  unfold operands?
  split
  · exact absurd rfl h.1
  · exact absurd rfl h.2.1
  · exact absurd rfl h.2.2
  · rfl

private theorem ordinary_of_bare? {op : Nat} (h : bare? op = some i) :
    op ≠ 0xc4 ∧ op ≠ 0x84 ∧ op ≠ 0xaa ∧ op ≠ 0xab := by
  refine ⟨?_, ?_, ?_, ?_⟩ <;> rintro rfl <;> cases (show none = some i from h)

private theorem ordinary_of_withByte? {op : Nat} {x : UInt8} (h : withByte? op x = some i) :
    op ≠ 0xc4 ∧ op ≠ 0x84 ∧ op ≠ 0xaa ∧ op ≠ 0xab := by
  refine ⟨?_, ?_, ?_, ?_⟩ <;> rintro rfl <;> cases (show none = some i from h)

/-- An opcode without operand bytes is an instruction by itself. -/
theorem decode?_bare (first : code[b]? = some op) (h : bare? op.toNat = some i) :
    decode? code b = some ⟨b, op, 1, i⟩ := by
  obtain ⟨plain, ordinary⟩ := ordinary_of_bare? h
  refine decode?_of_operands? first (fun same => plain (congrArg UInt8.toNat same)) ?_
    (Array.getElem?_eq_some_iff.1 first).1
  rw [operands?_of_ordinary ordinary, h]
  rfl

/-- An opcode with one operand byte is an instruction together with that byte. -/
theorem decode?_withByte {x : UInt8} (first : code[b]? = some op) (second : code[b + 1]? = some x)
    (bare : bare? op.toNat = none) (h : withByte? op.toNat x = some i) :
    decode? code b = some ⟨b, op, 2, i⟩ := by
  obtain ⟨plain, ordinary⟩ := ordinary_of_withByte? h
  refine decode?_of_operands? first (fun same => plain (congrArg UInt8.toNat same)) ?_
    (Array.getElem?_eq_some_iff.1 second).1
  rw [operands?_of_ordinary ordinary, bare, second, Option.bind_some, h]
  rfl

end Instruction
end ClassVerifier
