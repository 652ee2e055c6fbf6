import ClassVerifier.Cause

/-! The constant pool, and the lookups that the checks make in it. Every lookup says which entry is
missing or has the wrong kind. -/
namespace ClassVerifier

/-- A constant; operands are pool indices. Numbers are not kept, because no check looks at them. -/
inductive Constant where
  | utf8 (text : String)
  | integer
  | float
  | long
  | double
  | classRef (name : UInt16)
  | string (text : UInt16)
  | fieldRef (owner member : UInt16)
  | methodRef (owner member : UInt16)
  | interfaceMethodRef (owner member : UInt16)
  | nameAndType (name descriptor : UInt16)
  | methodHandle (kind : UInt8) (reference : UInt16)
  | methodType (descriptor : UInt16)
  | dynamic (bootstrap member : UInt16)
  | invokeDynamic (bootstrap member : UInt16)
  | moduleRef (name : UInt16)
  | packageRef (name : UInt16)
  deriving DecidableEq

/-- The kinds of constant that instructions distinguish; the others are `other`. -/
inductive ConstantKind where
  | integer | float | long | double | classRef | string
  | fieldRef | methodRef | interfaceMethodRef
  | methodHandle | methodType | dynamic | invokeDynamic
  | other
  deriving DecidableEq

namespace Constant

def kind : Constant → ConstantKind
  | integer => .integer
  | float => .float
  | long => .long
  | double => .double
  | classRef _ => .classRef
  | string _ => .string
  | fieldRef .. => .fieldRef
  | methodRef .. => .methodRef
  | interfaceMethodRef .. => .interfaceMethodRef
  | methodHandle .. => .methodHandle
  | methodType _ => .methodType
  | dynamic .. => .dynamic
  | invokeDynamic .. => .invokeDynamic
  | utf8 _ | nameAndType .. | moduleRef _ | packageRef _ => .other

/-- Eight-byte constants take two indices, and the second one is unusable. -/
def isWide : Constant → Bool
  | long | double => true
  | _ => false

end Constant

/-- The entries at the indices 1, 2, …; the index behind an eight-byte constant holds nothing. -/
structure ConstantPool where
  slots : Array (Option Constant) := #[]
  deriving DecidableEq

namespace ConstantPool

def push (pool : ConstantPool) (c : Constant) : ConstantPool :=
  if c.isWide then ⟨(pool.slots.push (some c)).push none⟩ else ⟨pool.slots.push (some c)⟩

def ofList (constants : List Constant) : ConstantPool := constants.foldl push {}

def get? (pool : ConstantPool) (index : UInt16) : Option Constant :=
  if index = 0 then none else (pool.slots[index.toNat - 1]?).join

def entry (pool : ConstantPool) (index : UInt16) : Except Cause Constant :=
  match pool.get? index with
  | some c => .ok c
  | none => .error (.illegalConstantPoolIndex index.toNat)

private def wrongKind {α : Type} (index : UInt16) : Except Cause α :=
  .error (.illegalConstantPoolType index.toNat)

/-- The entry's kind, which must be one of the given ones. -/
def kindAmong (pool : ConstantPool) (index : UInt16) (kinds : List ConstantKind) :
    Except Cause ConstantKind := do
  let c ← pool.entry index
  if c.kind ∈ kinds then return c.kind else wrongKind index

def utf8 (pool : ConstantPool) (index : UInt16) : Except Cause String := do
  match ← pool.entry index with
  | .utf8 text => return text
  | _ => wrongKind index

def className (pool : ConstantPool) (index : UInt16) : Except Cause String := do
  match ← pool.entry index with
  | .classRef name => pool.utf8 name
  | _ => wrongKind index

/-- The name of the class that declares the referenced field or method. -/
def ownerName (pool : ConstantPool) (index : UInt16) : Except Cause String := do
  match ← pool.entry index with
  | .fieldRef owner _ | .methodRef owner _ | .interfaceMethodRef owner _ => pool.className owner
  | _ => wrongKind index

/-- The index of the name and descriptor of a reference or dynamic entry. -/
def memberIndex (pool : ConstantPool) (index : UInt16) : Except Cause UInt16 := do
  match ← pool.entry index with
  | .fieldRef _ member | .methodRef _ member | .interfaceMethodRef _ member
  | .dynamic _ member | .invokeDynamic _ member => return member
  | _ => wrongKind index

def memberName (pool : ConstantPool) (index : UInt16) : Except Cause String := do
  let member ← pool.memberIndex index
  match ← pool.entry member with
  | .nameAndType name _ => pool.utf8 name
  | _ => wrongKind member

def memberDescriptor (pool : ConstantPool) (index : UInt16) : Except Cause String := do
  let member ← pool.memberIndex index
  match ← pool.entry member with
  | .nameAndType _ descriptor => pool.utf8 descriptor
  | _ => wrongKind member

end ConstantPool
end ClassVerifier
