import ClassVerifier.SlotType

/-! Instructions by what they do to a frame. Encodings that differ only in size, and opcodes that
differ only in the values they compute, are one instruction here. -/
namespace ClassVerifier

inductive NumberKind where
  | int | long | float | double
  deriving DecidableEq

namespace NumberKind

/-- The order in which opcodes of a family follow each other. -/
def ofIndex : Nat → NumberKind
  | 0 => int
  | 1 => long
  | 2 => float
  | _ => double

def type : NumberKind → SlotType
  | int => .integer
  | long => .long
  | float => .float
  | double => .double

def slots (k : NumberKind) : List SlotType := k.type.slots

end NumberKind

/-- What constants, loads, stores and returns move. -/
inductive ValueKind where
  | number (kind : NumberKind)
  | reference
  deriving DecidableEq

def ValueKind.ofIndex (i : Nat) : ValueKind :=
  if i < 4 then .number (.ofIndex i) else .reference

/-- What array loads and stores move; bytes stand for booleans too. -/
inductive ElementKind where
  | number (kind : NumberKind)
  | reference | byte | char | short
  deriving DecidableEq

namespace ElementKind

def ofIndex : Nat → ElementKind
  | 4 => reference
  | 5 => byte
  | 6 => char
  | 7 => short
  | i => number (.ofIndex i)

/-- The slots that an element takes on the stack; references are expected to be objects. -/
def slots : ElementKind → List SlotType
  | number kind => kind.slots
  | reference => [.reference ClassName.object]
  | byte | char | short => [.integer]

/-- Whether a slot holds an array of such elements. -/
def isElementOf (k : ElementKind) (array : SlotType) : Bool :=
  match k with
  | number .int => array.isArrayOf 'I'
  | number .long => array.isArrayOf 'J'
  | number .float => array.isArrayOf 'F'
  | number .double => array.isArrayOf 'D'
  | reference => array.isReferenceArray
  | byte => array.isArrayOf 'Z' || array.isArrayOf 'B'
  | char => array.isArrayOf 'C'
  | short => array.isArrayOf 'S'

end ElementKind

/-- What a conditional branch compares. -/
inductive BranchTest where
  | int | intPair | reference | referencePair
  deriving DecidableEq

/-- The operands of a test, bottom first. -/
def BranchTest.operands : BranchTest → List SlotType
  | int => [.integer]
  | intPair => [.integer, .integer]
  | reference => [.anyReference]
  | referencePair => [.anyReference, .anyReference]

/-- The cases of a switch as they are written: the bounds of a table, or the announced number of
keys and the keys of a lookup. -/
inductive SwitchCases where
  | table (low high : Int)
  | lookup (count : Int) (keys : List Int)
  deriving DecidableEq

/-- A switch; its first target is the default. -/
structure Switch where
  padding : List UInt8
  cases : SwitchCases
  targets : List Int
  deriving DecidableEq

inductive FieldAccess where
  | getStatic | putStatic | getField | putField
  deriving DecidableEq

def FieldAccess.isStatic : FieldAccess → Bool
  | getStatic | putStatic => true
  | getField | putField => false

/-- The kinds of call, with the operand bytes behind the pool index. -/
inductive CallKind where
  | virtual
  | special
  | static
  | interface (count reserved : UInt8)
  | dynamic (third fourth : UInt8)
  deriving DecidableEq

inductive Instruction where
  | nop
  | const (kind : ValueKind)
  /-- Loads a constant of one slot. -/
  | loadConstant (index : UInt16)
  /-- Loads a constant of two slots. -/
  | loadWideConstant (index : UInt16)
  | load (kind : ValueKind) (index : UInt16)
  | store (kind : ValueKind) (index : UInt16)
  | increment (index : UInt16)
  | arrayLoad (kind : ElementKind)
  | arrayStore (kind : ElementKind)
  /-- Removes the top slots, one or two. -/
  | discard (count : Nat)
  /-- Copies the top slots, one or two, below the up to two slots under them. -/
  | duplicate (count under : Nat)
  | swap
  | compute (operands : List NumberKind) (result : NumberKind)
  | branch (test : BranchTest) (target : Int)
  | jump (target : Int)
  /-- Subroutine calls and returns, which no checked method contains. -/
  | subroutine (opcode : UInt8) (widened : Bool)
  | switch (table : Switch)
  | returnValue (kind : ValueKind)
  | returnVoid
  | field (access : FieldAccess) (index : UInt16)
  | call (kind : CallKind) (index : UInt16)
  | new (index : UInt16)
  | newArray (code : UInt8)
  | newReferenceArray (index : UInt16)
  | newMultiArray (index : UInt16) (dimensions : UInt8)
  | arrayLength
  | throw
  | cast (index : UInt16)
  | isInstance (index : UInt16)
  | monitor
  deriving DecidableEq

namespace Instruction

/-- Where the instruction may jump to, falling through and exceptions aside. -/
def targets : Instruction → List Int
  | branch _ target | jump target => [target]
  | switch table => table.targets
  | _ => []

/-- Writes a local variable and does nothing else that can fail afterwards. -/
def isStore : Instruction → Bool
  | store .. => true
  | _ => false

end Instruction
end ClassVerifier
