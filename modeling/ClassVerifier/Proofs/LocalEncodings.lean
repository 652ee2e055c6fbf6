import ClassVerifier.Proofs.MovedCode
import ClassVerifier.Proofs.SwitchLayout

/-! The encodings of an access to a local variable. They differ in their lengths and in nothing
else: what they do to a frame is the same, and so is what is read behind them. -/
namespace ClassVerifier
open Reader (wordBytes)
open Instruction (Lies SameFrom Pads decode? bare? withByte? widened?)

/-- The order in which the opcodes of loads, of stores and of returns follow each other. -/
def ValueKind.rank : ValueKind → UInt8
  | .number .int => 0
  | .number .long => 1
  | .number .float => 2
  | .number .double => 3
  | .reference => 4

/-- What an instruction does with a local variable. -/
inductive LocalAccess where
  | load (kind : ValueKind)
  | store (kind : ValueKind)
  | increment

/-- How the variable is told: by the opcode itself, in one byte, or in two behind a prefix. -/
inductive LocalForm where
  | implied | narrow | wide

namespace LocalAccess

def instruction (index : UInt16) : LocalAccess → Instruction
  | load kind => .load kind index
  | store kind => .store kind index
  | increment => .increment index

/-- The opcode that has the index behind it. -/
def opcode : LocalAccess → UInt8
  | load kind => 0x15 + kind.rank
  | store kind => 0x36 + kind.rank
  | increment => 0x84

/-- The opcode of the first variable, from where those of the next three follow each other. -/
def firstOpcode : LocalAccess → UInt8
  | load kind => 0x1a + 4 * kind.rank
  | store kind => 0x3b + 4 * kind.rank
  | increment => 0x84

/-- Whether there is an encoding of this form. -/
def Admits (access : LocalAccess) (index : UInt16) : LocalForm → Prop
  | .implied => access ≠ increment ∧ index.toNat ≤ 3
  | .narrow => index.toNat ≤ 255
  | .wide => True

/-- The encoding; the amount matters to increments only. -/
def bytes (access : LocalAccess) (index amount : UInt16) : LocalForm → List UInt8
  | .implied => [access.firstOpcode + index.toUInt8]
  | .narrow => access.opcode :: index.toUInt8 ::
    match access with
    | increment => [amount.toUInt8]
    | _ => []
  | .wide => 0xc4 :: access.opcode :: (wordBytes index ++
    match access with
    | increment => wordBytes amount
    | _ => [])

/-- How long the encoding is. -/
def length (access : LocalAccess) : LocalForm → Nat
  | .implied => 1
  | .narrow =>
    match access with
    | increment => 3
    | _ => 2
  | .wide =>
    match access with
    | increment => 6
    | _ => 4

/-- The opcode that the instruction is known by. -/
def formOpcode (access : LocalAccess) (index : UInt16) : LocalForm → UInt8
  | .implied => access.firstOpcode + index.toUInt8
  | .narrow | .wide => access.opcode

variable {access : LocalAccess} {index amount : UInt16} {form : LocalForm} {code : Array UInt8}
  {b : Nat}

theorem length_bytes : (access.bytes index amount form).length = access.length form := by
  cases form <;> cases access <;> rfl

private theorem bare?_implied (plain : access ≠ increment) (few : index.toNat ≤ 3) :
    bare? (access.formOpcode index .implied).toNat = some (access.instruction index) := by
  obtain ⟨n, few, rfl⟩ : ∃ n ≤ 3, index = UInt16.ofNat n :=
    ⟨index.toNat, few, UInt16.ofNat_toNat.symm⟩
  have four : n = 0 ∨ n = 1 ∨ n = 2 ∨ n = 3 := by omega
  cases access with
  | increment => exact absurd rfl plain
  | load kind | store kind =>
    rcases kind with ⟨_ | _ | _ | _⟩ | _ <;> rcases four with rfl | rfl | rfl | rfl <;> rfl

private theorem withByte?_narrow (plain : access ≠ increment) (x : UInt8) :
    bare? access.opcode.toNat = none ∧
      withByte? access.opcode.toNat x = some (access.instruction x.toUInt16) := by
  cases access with
  | increment => exact absurd rfl plain
  | load kind | store kind =>
    rcases kind with ⟨_ | _ | _ | _⟩ | _ <;> exact ⟨rfl, rfl⟩

private theorem widened?_wide (index : UInt16) :
    widened? access.opcode.toNat index = some (access.instruction index) := by
  cases access with
  | increment => rfl
  | load kind | store kind => rcases kind with ⟨_ | _ | _ | _⟩ | _ <;> rfl

private theorem narrowed_index (small : index.toNat ≤ 255) : index.toUInt8.toUInt16 = index := by
  apply UInt16.toNat.inj
  rw [UInt8.toNat_toUInt16, UInt16.toNat_toUInt8]
  exact Nat.mod_eq_of_lt (by omega)

private theorem length_wide : access.length .wide = if access.opcode = 0x84 then 6 else 4 := by
  cases access with
  | increment => rfl
  | load kind | store kind => rcases kind with ⟨_ | _ | _ | _⟩ | _ <;> rfl

/-- What is read where an access is encoded is that access, with the length of its encoding. -/
theorem decode?_access (admitted : access.Admits index form)
    (laid : Lies code b (access.bytes index amount form)) :
    decode? code b =
      some ⟨b, access.formOpcode index form, access.length form, access.instruction index⟩ := by
  have room := laid.room
  rw [length_bytes] at room
  cases form with
  | implied => exact Instruction.decode?_bare laid.byte (bare?_implied admitted.1 admitted.2)
  | narrow =>
    have second : code[b + 1]? = some index.toUInt8 := laid.tail.byte
    by_cases plain : access = increment
    · subst plain
      have plain : (0x84 : UInt8) ≠ 0xc4 := by decide
      refine Instruction.decode?_of_operands? laid.byte plain ?_ room
      change (do return (Instruction.increment (← code[b + 1]?).toUInt16, 3)) = _
      rw [second]
      exact congrArg (fun index => some (Instruction.increment index, 3)) (narrowed_index admitted)
    · obtain ⟨bare, read⟩ := withByte?_narrow plain index.toUInt8
      rw [narrowed_index admitted] at read
      have two : access.length .narrow = 2 := by
        cases access with
        | increment => exact absurd rfl plain
        | load | store => rfl
      rw [two]
      exact Instruction.decode?_withByte laid.byte second bare read
  | wide =>
    have first : code[b]? = some 0xc4 := laid.byte
    have second : code[b + 1]? = some access.opcode := laid.tail.byte
    have word : Instruction.wordAt? code (b + 2) = some index := laid.tail.tail.left.word
    rw [length_wide] at room ⊢
    have fits : Instruction.fits? code (b + if access.opcode = 0x84 then 6 else 4) = some () :=
      if_pos room
    simp only [decode?, first, second, word, widened?_wide, fits, if_true, Option.bind_eq_bind,
      Option.bind_some, Option.pure_def]
    rfl

/-- An access looks at the frame only, and leads nowhere. -/
private theorem execute_access (m m' : Body) (f : Frame) :
    m.execute (access.instruction index) f = m'.execute (access.instruction index) f := by
  cases access <;> rfl

end LocalAccess

/-- Two encodings of one access to a local variable are read with their own lengths, and do the same
to every frame, whatever the classes are: they ask the same questions about classes, and end in the
same fault or the same frame. The same bytes behind them are read as the same instruction, with its
jump targets moved along. Only a switch has to be padded anew, and then it is read with the same
cases and offsets. -/
theorem LocalAccess.encodings_agree {access : LocalAccess} {index amount amount' : UInt16}
    {form form' : LocalForm} {code code' : Array UInt8} {b : Nat}
    (admitted : access.Admits index form) (admitted' : access.Admits index form')
    (laid : Lies code b (access.bytes index amount form))
    (laid' : Lies code' b (access.bytes index amount' form')) :
    ∃ i i', decode? code b = some i ∧ decode? code' b = some i' ∧
      i.length = access.length form ∧ i'.length = access.length form' ∧
      (∀ (m m' : Body) (f : Frame), m.execute i.instruction f = m'.execute i'.instruction f) ∧
      (SameFrom code i.next code' i'.next →
        i'.next % 4 = i.next % 4 ∨ code[i.next]? ≠ some 0xaa ∧ code[i.next]? ≠ some 0xab →
        decode? code' i'.next = (decode? code i.next).map (·.moved i'.next)) ∧
      ∀ (s : SwitchLayout) (padding padding' : List UInt8),
        code.size ≤ 65535 → code'.size ≤ 65535 → Pads i.next padding → Pads i'.next padding' →
        Lies code i.next (s.bytes padding) → Lies code' i'.next (s.bytes padding') →
        decode? code i.next = some (s.located i.next padding) ∧
          decode? code' i'.next = some (s.located i'.next padding') := by
  refine ⟨_, _, decode?_access admitted laid, decode?_access admitted' laid', rfl, rfl,
    fun m m' f => execute_access m m' f, Instruction.decode?_moved, ?_⟩
  intro s padding padding' small small' pads pads' follows follows'
  exact ⟨Instruction.decode?_switch small pads follows,
    Instruction.decode?_switch small' pads' follows'⟩

/-- The fourth variable is loaded and returned, by the shortest encoding and by the longest one. -/
theorem LocalAccess.encodings_agree_fourth :
    ∃ i i', decode? #[0x1d, 0xac] 0 = some i ∧ decode? #[0xc4, 0x15, 0x00, 0x03, 0xac] 0 = some i' ∧
      i.next = 1 ∧ i'.next = 4 ∧
      (∀ (m m' : Body) (f : Frame), m.execute i.instruction f = m'.execute i'.instruction f) ∧
      decode? #[0xc4, 0x15, 0x00, 0x03, 0xac] 4 =
        (decode? #[0x1d, 0xac] 1).map (·.moved 4) := by
  have implied : (load (.number .int)).Admits 3 .implied := ⟨nofun, by decide⟩
  have wide : (load (.number .int)).Admits 3 .wide := trivial
  have laid : Lies #[0x1d, 0xac] 0 ((load (.number .int)).bytes 3 0 .implied) :=
    ⟨[], [0xac], rfl, rfl⟩
  have laid' : Lies #[0xc4, 0x15, 0x00, 0x03, 0xac] 0 ((load (.number .int)).bytes 3 0 .wide) :=
    ⟨[], [0xac], rfl, rfl⟩
  obtain ⟨i, i', read, read', length, length', same, follows, _⟩ :=
    encodings_agree implied wide laid laid'
  have next : i.next = 1 := by
    rw [Located.next, Instruction.decode?_offset read, length]
    rfl
  have next' : i'.next = 4 := by
    rw [Located.next, Instruction.decode?_offset read', length']
    rfl
  have behind : SameFrom #[0x1d, 0xac] 1 #[0xc4, 0x15, 0x00, 0x03, 0xac] 4 := by
    intro k
    cases k with
    | zero => rfl
    | succ k => rw [Array.getElem?_eq_none, Array.getElem?_eq_none] <;> simp <;> omega
  rw [next, next'] at follows
  exact ⟨i, i', read, read', next, next', same, follows behind (.inr ⟨by decide, by decide⟩)⟩

end ClassVerifier
