import ClassVerifier.Instruction.Decode

/-! Method bodies as lists of instructions that can be put at other offsets. One behind the other
they make up the body again, except that switches are padded with zeros and that a key which a
lookup switch gives twice stands where it came first and leads where it led last. -/
namespace ClassVerifier

/-- An instruction whose jumps are given by the offsets that they lead to. -/
inductive Relocatable where
  /-- An instruction that does not jump, as it is written. -/
  | plain (bytes : List UInt8)
  /-- A branch whose offset takes two bytes. -/
  | near (opcode : UInt8) (target : Int)
  /-- A branch whose offset takes four bytes. -/
  | far (opcode : UInt8) (target : Int)
  | table (default low high : Int) (targets : List Int)
  | lookup (default : Int) (cases : List (Int × Int))
  deriving DecidableEq

namespace Relocatable

open Instruction

/-- Opcodes that are set aside for debuggers and implementations. -/
def isReserved (op : UInt8) : Bool := op == 0xca || 0xfe ≤ op

def isNear (op : UInt8) : Bool := (0x99 ≤ op && op ≤ 0xa8) || op == 0xc6 || op == 0xc7

def isFar (op : UInt8) : Bool := op == 0xc8 || op == 0xc9

/-- Bytes that have to be zero are zero, and arrays hold elements of a known type. -/
def isWellFormed : Instruction → Bool
  | .newArray code => 4 ≤ code && code ≤ 11
  | .call (.interface _ reserved) _ => reserved == 0
  | .call (.dynamic third fourth) _ => third == 0 && fourth == 0
  | _ => true

/-- Where a switch at `b` leads, which is not back. -/
def forward? (b : Nat) (offset : Int) : Option Int :=
  if 0 ≤ offset then some (b + offset) else none

/-- A table switch at `b` and where it ends; inverted bounds are those of an empty table. -/
def tableSwitch? (code : Array UInt8) (b : Nat) : Option (Relocatable × Nat) := do
  let start := aligned b
  let default ← forward? b (← intAt? code start)
  let low ← intAt? code (start + 4)
  let high ← intAt? code (start + 8)
  let count := (high - low + 1).toNat
  let targets ← (← intsAt? code 4 count (start + 12)).mapM (forward? b)
  return (.table default low high targets, start + 12 + 4 * count)

/-- Adds a case to those before, of which the last one stands first. -/
def addCase (before : List (Int × Int)) (key offset : Int) : List (Int × Int) :=
  if before.any (·.1 == key) then
    before.map fun (k, o) => if k = key then (k, offset) else (k, o)
  else (key, offset) :: before

/-- A lookup switch at `b` and where it ends; a negative count is that of no cases. -/
def lookupSwitch? (code : Array UInt8) (b : Nat) : Option (Relocatable × Nat) := do
  let start := aligned b
  let default ← forward? b (← intAt? code start)
  let count := (← intAt? code (start + 4)).toNat
  let keys ← intsAt? code 8 count (start + 8)
  let offsets ← intsAt? code 8 count (start + 12)
  let cases := ((keys.zip offsets).foldl (fun before (k, o) => addCase before k o) []).reverse
  let cases ← cases.mapM fun (k, o) => (forward? b o).map (k, ·)
  return (.lookup default cases, start + 8 + 8 * count)

/-- The instruction at `b` and where it ends. -/
def read? (code : Array UInt8) (b : Nat) : Option (Relocatable × Nat) := do
  let op ← code[b]?
  if isReserved op then return (.plain [op], b + 1)
  else if op = 0xaa then tableSwitch? code b
  else if op = 0xab then lookupSwitch? code b
  else
    let i ← (decode? code b).filter (isWellFormed ·.instruction)
    if isNear op then
      return (.near op (b + signed 16 (← wordAt? code (b + 1)).toNat), i.next)
    else if isFar op then return (.far op (b + (← intAt? code (b + 1))), i.next)
    else return (.plain (code.extract b i.next).toList, i.next)

private theorem lt_of_tableSwitch? {code : Array UInt8} {b next : Nat} {i : Relocatable}
    (h : tableSwitch? code b = some (i, next)) : b < next := by
  simp only [tableSwitch?, Option.bind_eq_bind, Option.bind_eq_some_iff, Option.pure_def,
    Option.some.injEq, Prod.mk.injEq] at h
  obtain ⟨_, _, _, _, _, _, _, _, _, _, _, _, _, rfl⟩ := h
  simp only [aligned]
  omega

private theorem lt_of_lookupSwitch? {code : Array UInt8} {b next : Nat} {i : Relocatable}
    (h : lookupSwitch? code b = some (i, next)) : b < next := by
  simp only [lookupSwitch?, Option.bind_eq_bind, Option.bind_eq_some_iff, Option.pure_def,
    Option.some.injEq, Prod.mk.injEq] at h
  obtain ⟨_, _, _, _, _, _, _, _, _, _, _, _, _, rfl⟩ := h
  simp only [aligned]
  omega

theorem lt_of_read? {code : Array UInt8} {b next : Nat} {i : Relocatable}
    (h : read? code b = some (i, next)) : b < next := by
  simp only [read?, Option.bind_eq_bind, Option.pure_def] at h
  obtain ⟨op, _, h⟩ := Option.bind_eq_some_iff.1 h
  split at h
  · cases h
    exact Nat.lt_succ_self b
  · split at h
    · exact lt_of_tableSwitch? h
    · split at h
      · exact lt_of_lookupSwitch? h
      · obtain ⟨i, hi, h⟩ := Option.bind_eq_some_iff.1 h
        have := lt_next_of_decode? (Option.filter_eq_some_iff.1 hi).1
        split at h
        · obtain ⟨_, _, h⟩ := Option.bind_eq_some_iff.1 h
          cases h
          exact this
        · split at h
          · obtain ⟨_, _, h⟩ := Option.bind_eq_some_iff.1 h
            cases h
            exact this
          · cases h
            exact this

/-- The instructions from `b` on with their offsets, if they fill the code. An offset takes two
bytes. -/
def readAll? (code : Array UInt8) (b : Nat) (before : List (Nat × Relocatable) := []) :
    Option (List (Nat × Relocatable)) :=
  if _h : b < code.size then
    if 65535 < b then none
    else
      match _h : read? code b with
      | some (i, next) => readAll? code next ((b, i) :: before)
      | none => none
  else some before.reverse
termination_by code.size - b
decreasing_by
  have := lt_of_read? ‹_›
  omega

/-- Where the instruction ends if it is put at `b`. -/
def stop (b : Nat) : Relocatable → Nat
  | plain bytes => b + bytes.length
  | near .. => b + 3
  | far .. => b + 5
  | table _ _ _ targets => aligned b + 12 + 4 * targets.length
  | lookup _ cases => aligned b + 8 + 8 * cases.length

/-- Where an instruction is put: how many stand before it, and at what offset it begins. -/
structure Place where
  number : Nat
  offset : Nat
  deriving DecidableEq

/-- The places that instructions get, by their old offsets. -/
abbrev Moved := Array (Option Place)

def Moved.to? (moved : Moved) (target : Int) : Option Place :=
  if target < 0 then none else (moved[target.toNat]?).join

/-- The places that instructions get when they are put one behind the other. -/
def moved (size : Nat) (instructions : List (Nat × Relocatable)) : Moved :=
  (instructions.foldl
    (fun (moved, p) (old, i) =>
      (moved.setIfInBounds old (some p), ⟨p.number + 1, i.stop p.offset⟩))
    (Array.replicate size none, (⟨0, 0⟩ : Place))).1

/-- Until the offsets are known an instruction at `b` is written with the numbers of those that it
leads to in their place, and what a near branch is then written with has to fit two bytes. As
numbers are never above offsets, it can only be too far back. -/
def isInReach (moved : Moved) (b : Nat) : Relocatable → Bool
  | near _ target => (moved.to? target).any fun p => b ≤ p.number + 32768
  | _ => true

/-- Whether all of the instructions can be written before their offsets are known. -/
def allInReach (moved : Moved) (instructions : List (Nat × Relocatable)) : Bool :=
  instructions.all fun (old, i) => (moved.to? old).any fun p => i.isInReach moved p.offset

/-- Two bytes that stand for a number. -/
def wordBytes (n : Int) : List UInt8 := [.ofInt (n / 256), .ofInt n]

/-- Four bytes that stand for a number. -/
def longBytes (n : Int) : List UInt8 := wordBytes (n / 65536) ++ wordBytes n

/-- The offset that a jump from `b` is written with. -/
def jump? (moved : Moved) (b : Nat) (target : Int) : Option Int := do
  return (← moved.to? target).offset - b

/-- Zeros behind the opcode of a switch at `b`. -/
def padding (b : Nat) : List UInt8 := List.replicate (aligned b - (b + 1)) 0

/-- The instruction as it is written at `b`, if its jumps lead to instructions. -/
def bytes? (moved : Moved) (b : Nat) : Relocatable → Option (List UInt8)
  | plain bytes => some bytes
  | near op target => do return op :: wordBytes (← jump? moved b target)
  | far op target => do return op :: longBytes (← jump? moved b target)
  | table default low high targets => do
    let default ← jump? moved b default
    let offsets ← targets.mapM (jump? moved b)
    return 0xaa :: padding b ++ [default, low, high].flatMap longBytes ++ offsets.flatMap longBytes
  | lookup default cases => do
    let default ← jump? moved b default
    let offsets ← cases.mapM fun (key, target) => (jump? moved b target).map ([key, ·])
    return 0xab :: padding b ++ [default, (cases.length : Int)].flatMap longBytes ++
      offsets.flatten.flatMap longBytes

/-- The instructions one behind the other, if their jumps lead to instructions. -/
def code? (moved : Moved) (instructions : List Relocatable) : Option (Array UInt8) :=
  instructions.foldlM (fun code i => (i.bytes? moved code.size).map code.appendList) #[]

end Relocatable
end ClassVerifier
