import ClassVerifier.Instruction

/-! Reading instructions out of code bytes. An instruction has an opcode that is defined, operands
that are complete and a length that stays inside the code; else there is none at that offset. -/
namespace ClassVerifier

/-- An instruction at its offset; a widening prefix counts for the length but not as opcode. -/
structure Located where
  offset : Nat
  opcode : UInt8
  length : Nat
  instruction : Instruction
  deriving DecidableEq

def Located.next (i : Located) : Nat := i.offset + i.length

namespace Instruction

def wordAt? (code : Array UInt8) (i : Nat) : Option UInt16 := do
  let high ← code[i]?
  let low ← code[i + 1]?
  return high.toUInt16 <<< 8 ||| low.toUInt16

/-- The signed number that the lowest bits of an integer stand for. -/
def signed (bits : Nat) (n : Int) : Int := n.bmod (Nat.pow 2 bits)

/-- A signed four-byte integer. -/
def intAt? (code : Array UInt8) (i : Nat) : Option Int := do
  let high ← wordAt? code i
  let low ← wordAt? code (i + 2)
  return signed 32 (high.toNat * 65536 + low.toNat : Nat)

/-- Succeeds if the code goes on at least up to here. -/
def fits? (code : Array UInt8) (stop : Nat) : Option Unit :=
  if stop ≤ code.size then some () else none

/-- The integers at the next positions, one every `step` bytes. -/
def intsAt? (code : Array UInt8) (step : Nat) : Nat → Nat → Option (List Int)
  | 0, _ => some []
  | n + 1, i => do
    let first ← intAt? code i
    let rest ← intsAt? code step n (i + step)
    return first :: rest

/-- Where a branch of the given offset leads; the sum wraps at 32 bits. -/
def target (b : Nat) (offset : Int) : Int := signed 32 (b + offset)

/-- The first multiple of four behind an opcode. -/
def aligned (b : Nat) : Nat := (b + 4) / 4 * 4

/-- Instructions without operand bytes. -/
def bare? (op : Nat) : Option Instruction :=
  if op = 0x00 then some .nop
  else if op = 0x01 then some (.const .reference)
  else if op ≤ 0x08 then some (.const (.number .int))
  else if op ≤ 0x0a then some (.const (.number .long))
  else if op ≤ 0x0d then some (.const (.number .float))
  else if op ≤ 0x0f then some (.const (.number .double))
  else if op < 0x1a then none
  else if op < 0x2e then
    some (.load (.ofIndex ((op - 0x1a) / 4)) (UInt16.ofNat ((op - 0x1a) % 4)))
  else if op < 0x36 then some (.arrayLoad (.ofIndex (op - 0x2e)))
  else if op < 0x3b then none
  else if op < 0x4f then
    some (.store (.ofIndex ((op - 0x3b) / 4)) (UInt16.ofNat ((op - 0x3b) % 4)))
  else if op < 0x57 then some (.arrayStore (.ofIndex (op - 0x4f)))
  else if op = 0x57 then some (.discard 1)
  else if op = 0x58 then some (.discard 2)
  else if op < 0x5f then some (.duplicate ((op - 0x59) / 3 + 1) ((op - 0x59) % 3))
  else if op = 0x5f then some .swap
  else if op < 0x74 then
    let kind := NumberKind.ofIndex (op % 4)
    some (.compute [kind, kind] kind)
  else if op < 0x78 then
    let kind := NumberKind.ofIndex (op % 4)
    some (.compute [kind] kind)
  else if op < 0x7e then
    let kind := NumberKind.ofIndex (op % 2)
    some (.compute [kind, .int] kind)
  else if op < 0x84 then
    let kind := NumberKind.ofIndex (op % 2)
    some (.compute [kind, kind] kind)
  else conversion? op
where
  /-- Conversions, comparisons and the instructions behind them. -/
  conversion? : Nat → Option Instruction
    | 0x85 => some (.compute [.int] .long)
    | 0x86 => some (.compute [.int] .float)
    | 0x87 => some (.compute [.int] .double)
    | 0x88 => some (.compute [.long] .int)
    | 0x89 => some (.compute [.long] .float)
    | 0x8a => some (.compute [.long] .double)
    | 0x8b => some (.compute [.float] .int)
    | 0x8c => some (.compute [.float] .long)
    | 0x8d => some (.compute [.float] .double)
    | 0x8e => some (.compute [.double] .int)
    | 0x8f => some (.compute [.double] .long)
    | 0x90 => some (.compute [.double] .float)
    | 0x91 | 0x92 | 0x93 => some (.compute [.int] .int)
    | 0x94 => some (.compute [.long, .long] .int)
    | 0x95 | 0x96 => some (.compute [.float, .float] .int)
    | 0x97 | 0x98 => some (.compute [.double, .double] .int)
    | 0xac => some (.returnValue (.number .int))
    | 0xad => some (.returnValue (.number .long))
    | 0xae => some (.returnValue (.number .float))
    | 0xaf => some (.returnValue (.number .double))
    | 0xb0 => some (.returnValue .reference)
    | 0xb1 => some .returnVoid
    | 0xbe => some .arrayLength
    | 0xbf => some .throw
    | 0xc2 | 0xc3 => some .monitor
    | _ => none

/-- Instructions with one operand byte. -/
def withByte? (op : Nat) (operand : UInt8) : Option Instruction :=
  if op = 0x10 then some (.const (.number .int))
  else if op = 0x12 then some (.loadConstant operand.toUInt16)
  else if 0x15 ≤ op ∧ op < 0x1a then some (.load (.ofIndex (op - 0x15)) operand.toUInt16)
  else if 0x36 ≤ op ∧ op < 0x3b then some (.store (.ofIndex (op - 0x36)) operand.toUInt16)
  else if op = 0xa9 then some (.subroutine 0xa9 false)
  else if op = 0xbc then some (.newArray operand)
  else none

/-- Instructions with one operand of two bytes; branches are relative to the offset `b`. -/
def withWord? (b op : Nat) (operand : UInt16) : Option Instruction :=
  let there := target b (signed 16 operand.toNat)
  if op = 0x11 then some (.const (.number .int))
  else if op = 0x13 then some (.loadConstant operand)
  else if op = 0x14 then some (.loadWideConstant operand)
  else if op < 0x99 then none
  else if op < 0x9f then some (.branch .int there)
  else if op < 0xa5 then some (.branch .intPair there)
  else if op < 0xa7 then some (.branch .referencePair there)
  else if op = 0xa7 then some (.jump there)
  else if op = 0xa8 then some (.subroutine 0xa8 false)
  else if op = 0xb2 then some (.field .getStatic operand)
  else if op = 0xb3 then some (.field .putStatic operand)
  else if op = 0xb4 then some (.field .getField operand)
  else if op = 0xb5 then some (.field .putField operand)
  else if op = 0xb6 then some (.call .virtual operand)
  else if op = 0xb7 then some (.call .special operand)
  else if op = 0xb8 then some (.call .static operand)
  else if op = 0xbb then some (.new operand)
  else if op = 0xbd then some (.newReferenceArray operand)
  else if op = 0xc0 then some (.cast operand)
  else if op = 0xc1 then some (.isInstance operand)
  else if op = 0xc6 ∨ op = 0xc7 then some (.branch .reference there)
  else none

/-- Instructions whose operand is a local variable and that may be widened. -/
def widened? (op : Nat) (index : UInt16) : Option Instruction :=
  if 0x15 ≤ op ∧ op < 0x1a then some (.load (.ofIndex (op - 0x15)) index)
  else if 0x36 ≤ op ∧ op < 0x3b then some (.store (.ofIndex (op - 0x36)) index)
  else if op = 0x84 then some (.increment index)
  else if op = 0xa9 then some (.subroutine 0xa9 true)
  else none

/-- The length that the header of a switch announces, if it is positive and a 32-bit number. -/
def switchLength? (length : Int) : Option Nat :=
  if 0 < length ∧ length < 0x80000000 then some length.toNat else none

/-- A table switch at `b`, with its length. -/
def tableSwitch? (code : Array UInt8) (b : Nat) : Option (Instruction × Nat) := do
  let start := aligned b
  let low ← intAt? code (start + 4)
  let high ← intAt? code (start + 8)
  let length ← switchLength? ((start - b : Nat) + (3 + high - low + 1) * 4)
  fits? code (b + length)
  let default ← intAt? code start
  let offsets ← intsAt? code 4 (high - low + 1).toNat (start + 12)
  return (.switch {
    padding := (code.extract (b + 1) start).toList
    cases := .table low high
    targets := (default :: offsets).map (target b) }, length)

/-- A lookup switch at `b`, with its length. -/
def lookupSwitch? (code : Array UInt8) (b : Nat) : Option (Instruction × Nat) := do
  let start := aligned b
  let count ← intAt? code (start + 4)
  let length ← switchLength? ((start - b : Nat) + (2 + 2 * count) * 4)
  fits? code (b + length)
  let default ← intAt? code start
  let keys ← intsAt? code 8 count.toNat (start + 8)
  let offsets ← intsAt? code 8 count.toNat (start + 12)
  return (.switch {
    padding := (code.extract (b + 1) start).toList
    cases := .lookup count keys
    targets := (default :: offsets).map (target b) }, length)

/-- Instructions behind whose opcode more than one pool index or branch offset follows. -/
def long? (code : Array UInt8) (b op : Nat) : Option (Instruction × Nat) :=
  match op with
  | 0xb9 => do
    return (.call (.interface (← code[b + 3]?) (← code[b + 4]?)) (← wordAt? code (b + 1)), 5)
  | 0xba => do
    return (.call (.dynamic (← code[b + 3]?) (← code[b + 4]?)) (← wordAt? code (b + 1)), 5)
  | 0xc5 => do return (.newMultiArray (← wordAt? code (b + 1)) (← code[b + 3]?), 4)
  | 0xc8 => do return (.jump (target b (← intAt? code (b + 1))), 5)
  | 0xc9 => some (.subroutine 0xc9 false, 5)
  | _ => none

/-- The instruction with the given opcode at `b`, with its length. -/
def operands? (code : Array UInt8) (b op : Nat) : Option (Instruction × Nat) :=
  match op with
  | 0x84 => do return (.increment (← code[b + 1]?).toUInt16, 3)
  | 0xaa => tableSwitch? code b
  | 0xab => lookupSwitch? code b
  | _ =>
    (bare? op).map (·, 1) <|>
    ((code[b + 1]?).bind (withByte? op)).map (·, 2) <|>
    ((wordAt? code (b + 1)).bind (withWord? b op)).map (·, 3) <|>
    long? code b op

/-- The instruction at `b`. -/
def decode? (code : Array UInt8) (b : Nat) : Option Located := do
  let first ← code[b]?
  if first = 0xc4 then
    let opcode ← code[b + 1]?
    let index ← wordAt? code (b + 2)
    let instruction ← widened? opcode.toNat index
    let length := if opcode = 0x84 then 6 else 4
    fits? code (b + length)
    return ⟨b, opcode, length, instruction⟩
  else
    let (instruction, length) ← operands? code b first.toNat
    fits? code (b + length)
    return ⟨b, first, length, instruction⟩

section
variable {code : Array UInt8} {b op n : Nat} {i : Instruction}

theorem tableSwitch?_cases (h : tableSwitch? code b = some (i, n)) :
    ∃ low high padding targets, intAt? code (aligned b + 4) = some low ∧
      intAt? code (aligned b + 8) = some high ∧
      switchLength? ((aligned b - b : Nat) + (3 + high - low + 1) * 4) = some n ∧
      fits? code (b + n) = some () ∧ i = .switch ⟨padding, .table low high, targets⟩ := by
  simp only [tableSwitch?, Option.bind_eq_bind, Option.bind_eq_some_iff, Option.pure_def,
    Option.some.injEq, Prod.mk.injEq] at h
  obtain ⟨low, lower, high, upper, _, length, _, room, _, _, _, _, rfl, rfl⟩ := h
  exact ⟨low, high, _, _, lower, upper, length, room, rfl⟩

theorem lookupSwitch?_cases (h : lookupSwitch? code b = some (i, n)) :
    ∃ count keys padding targets, intAt? code (aligned b + 4) = some count ∧
      switchLength? ((aligned b - b : Nat) + (2 + 2 * count) * 4) = some n ∧
      fits? code (b + n) = some () ∧ i = .switch ⟨padding, .lookup count keys, targets⟩ := by
  simp only [lookupSwitch?, Option.bind_eq_bind, Option.bind_eq_some_iff, Option.pure_def,
    Option.some.injEq, Prod.mk.injEq] at h
  obtain ⟨count, read, _, length, _, room, _, _, keys, _, _, _, rfl, rfl⟩ := h
  exact ⟨count, keys, _, _, read, length, room, rfl⟩

theorem long?_cases (h : long? code b op = some (i, n)) :
    (op = 0xb9 ∧ n = 5 ∧ ∃ x y index, i = .call (.interface x y) index) ∨
    (op = 0xba ∧ n = 5 ∧ ∃ x y index, i = .call (.dynamic x y) index) ∨
    (op = 0xc5 ∧ n = 4 ∧ ∃ index x, i = .newMultiArray index x) ∨
    (op = 0xc8 ∧ n = 5 ∧ ∃ there, i = .jump there) ∨
    op = 0xc9 ∧ n = 5 ∧ i = .subroutine 0xc9 false := by
  unfold long? at h
  split at h
  case h_6 => cases h
  all_goals
    simp only [Option.bind_eq_bind, Option.bind_eq_some_iff, Option.pure_def, Option.some.injEq,
      Prod.mk.injEq] at h
  · obtain ⟨x, _, y, _, index, _, rfl, rfl⟩ := h
    exact .inl ⟨rfl, rfl, x, y, index, rfl⟩
  · obtain ⟨x, _, y, _, index, _, rfl, rfl⟩ := h
    exact .inr (.inl ⟨rfl, rfl, x, y, index, rfl⟩)
  · obtain ⟨index, _, x, _, rfl, rfl⟩ := h
    exact .inr (.inr (.inl ⟨rfl, rfl, index, x, rfl⟩))
  · obtain ⟨_, _, rfl, rfl⟩ := h
    exact .inr (.inr (.inr (.inl ⟨rfl, rfl, _, rfl⟩)))
  · obtain ⟨rfl, rfl⟩ := h
    exact .inr (.inr (.inr (.inr ⟨rfl, rfl, rfl⟩)))

theorem operands?_cases (h : operands? code b op = some (i, n)) :
    (op = 0x84 ∧ n = 3 ∧ ∃ index, i = .increment index) ∨
    (op = 0xaa ∧ tableSwitch? code b = some (i, n)) ∨
    (op = 0xab ∧ lookupSwitch? code b = some (i, n)) ∨
    (n = 1 ∧ bare? op = some i) ∨
    (n = 2 ∧ ∃ x, withByte? op x = some i) ∨
    (n = 3 ∧ ∃ w, withWord? b op w = some i) ∨
    long? code b op = some (i, n) := by
  unfold operands? at h
  split at h
  · simp only [Option.bind_eq_bind, Option.bind_eq_some_iff, Option.pure_def, Option.some.injEq,
      Prod.mk.injEq] at h
    obtain ⟨_, _, rfl, rfl⟩ := h
    exact .inl ⟨rfl, rfl, _, rfl⟩
  · exact .inr (.inl ⟨rfl, h⟩)
  · exact .inr (.inr (.inl ⟨rfl, h⟩))
  · simp only [Option.orElse_eq_orElse, Option.orElse_eq_or, Option.or_eq_some_iff,
      Option.map_eq_some_iff, Option.bind_eq_some_iff, Prod.mk.injEq] at h
    rcases h with ⟨_, one, rfl, rfl⟩ | ⟨_, ⟨_, ⟨x, _, two⟩, rfl, rfl⟩ |
      ⟨_, ⟨_, ⟨w, _, three⟩, rfl, rfl⟩ | ⟨_, more⟩⟩⟩
    · exact .inr (.inr (.inr (.inl ⟨rfl, one⟩)))
    · exact .inr (.inr (.inr (.inr (.inl ⟨rfl, x, two⟩))))
    · exact .inr (.inr (.inr (.inr (.inr (.inl ⟨rfl, w, three⟩)))))
    · exact .inr (.inr (.inr (.inr (.inr (.inr more)))))

/-- An instruction is read behind a widening prefix or without one. -/
theorem decode?_cases {i : Located} (h : decode? code b = some i) :
    (∃ op index instruction, code[b]? = some 0xc4 ∧ code[b + 1]? = some op ∧
      widened? op.toNat index = some instruction ∧
      fits? code (b + if op = 0x84 then 6 else 4) = some () ∧
      i = ⟨b, op, if op = 0x84 then 6 else 4, instruction⟩) ∨
    ∃ op length instruction, op ≠ 0xc4 ∧ code[b]? = some op ∧
      operands? code b op.toNat = some (instruction, length) ∧
      fits? code (b + length) = some () ∧ i = ⟨b, op, length, instruction⟩ := by
  simp only [decode?, Option.bind_eq_bind, Option.pure_def] at h
  obtain ⟨first, hfirst, h⟩ := Option.bind_eq_some_iff.1 h
  split at h
  · next wide =>
    obtain ⟨op, hop, h⟩ := Option.bind_eq_some_iff.1 h
    obtain ⟨index, _, h⟩ := Option.bind_eq_some_iff.1 h
    obtain ⟨instruction, read, h⟩ := Option.bind_eq_some_iff.1 h
    obtain ⟨_, room, h⟩ := Option.bind_eq_some_iff.1 h
    cases h
    exact .inl ⟨op, index, instruction, wide ▸ hfirst, hop, read, room, rfl⟩
  · next plain =>
    obtain ⟨⟨instruction, length⟩, read, h⟩ := Option.bind_eq_some_iff.1 h
    obtain ⟨_, room, h⟩ := Option.bind_eq_some_iff.1 h
    cases h
    exact .inr ⟨first, length, instruction, plain, hfirst, read, room, rfl⟩

theorem switchLength?_eq_some_iff {length : Int} :
    switchLength? length = some n ↔ 0 < length ∧ length < 0x80000000 ∧ (n : Int) = length := by
  unfold switchLength?
  split
  · rw [Option.some.injEq]
    omega
  · simp only [reduceCtorEq, false_iff]
    omega

theorem switchLength?_pos {length : Int} (h : switchLength? length = some n) : 0 < n := by
  have := switchLength?_eq_some_iff.1 h
  omega

theorem operands?_pos (h : operands? code b op = some (i, n)) : 0 < n := by
  rcases operands?_cases h with ⟨_, rfl, _⟩ | ⟨_, table⟩ | ⟨_, lookup⟩ | ⟨rfl, _⟩ | ⟨rfl, _⟩ |
    ⟨rfl, _⟩ | more
  · exact Nat.succ_pos _
  · obtain ⟨_, _, _, _, _, _, length, _⟩ := tableSwitch?_cases table
    exact switchLength?_pos length
  · obtain ⟨_, _, _, _, _, length, _⟩ := lookupSwitch?_cases lookup
    exact switchLength?_pos length
  · exact Nat.one_pos
  · exact Nat.two_pos
  · exact Nat.succ_pos _
  · have := long?_cases more
    omega

end

theorem decode?_length_pos {code : Array UInt8} {b : Nat} {i : Located}
    (h : decode? code b = some i) : 0 < i.length := by
  rcases decode?_cases h with ⟨_, _, _, _, _, _, _, rfl⟩ | ⟨_, _, _, _, _, read, _, rfl⟩
  · dsimp only
    split
    · exact Nat.succ_pos _
    · exact Nat.succ_pos _
  · exact operands?_pos read

theorem decode?_offset {code : Array UInt8} {b : Nat} {i : Located}
    (h : decode? code b = some i) : i.offset = b := by
  rcases decode?_cases h with ⟨_, _, _, _, _, _, _, rfl⟩ | ⟨_, _, _, _, _, _, _, rfl⟩
  · rfl
  · rfl

/-- The instruction that follows starts further on. -/
theorem lt_next_of_decode? {code : Array UInt8} {b : Nat} {i : Located}
    (h : decode? code b = some i) : b < i.next := by
  have ho := decode?_offset h
  have hl := decode?_length_pos h
  unfold Located.next
  omega

end Instruction
end ClassVerifier
