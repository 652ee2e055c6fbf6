import ClassVerifier.Execution.Member

/-! What each instruction demands of a frame and makes of it. -/
namespace ClassVerifier

namespace ClassName

/-- The name of the array of such objects or arrays. -/
def arrayOf (name : String) : String :=
  if isArray name.toList then "[" ++ name else "[L" ++ name ++ ";"

/-- One more dimension would be too many: the last one allowed is taken. -/
def isFull (name : String) : Bool :=
  isArray name.toList && name.toUTF8.data[Descriptor.maxDimensions - 1]? = some 0x5b &&
    Descriptor.maxDimensions < name.utf8ByteSize

/-- The array type that a code of a primitive type stands for. -/
def ofArrayCode? : UInt8 → Option String
  | 4 => some "[Z"
  | 5 => some "[C"
  | 6 => some "[F"
  | 7 => some "[D"
  | 8 => some "[B"
  | 9 => some "[S"
  | 10 => some "[I"
  | 11 => some "[J"
  | _ => none

end ClassName

namespace Switch

def ascending : List Int → Bool
  | a :: b :: rest => a < b && ascending (b :: rest)
  | _ => true

/-- The cases are in order and not too many. -/
def checkCases : SwitchCases → Except Cause Unit
  | .table low high =>
    if high < low then .error .tableSwitchBounds
    else if Instruction.signed 32 (high - low + 1) < 0 then .error .tooManySwitchKeys
    else .ok ()
  | .lookup count keys =>
    if count < 0 then .error .negativeLookupSwitchCount
    else if ascending keys then .ok ()
    else .error .unsortedLookupSwitch

end Switch

namespace Body

/-- The slots of a constant, if its kind can be loaded. -/
def constantSlots (pool : ConstantPool) (index : UInt16) (wide : Bool) :
    ConstantKind → Except Cause (List SlotType)
  | .string => .ok [.reference "java/lang/String"]
  | .classRef => .ok [.reference "java/lang/Class"]
  | .integer => .ok [.integer]
  | .float => .ok [.float]
  | .long => .ok SlotType.long.slots
  | .double => .ok SlotType.double.slots
  | .methodHandle => .ok [.reference "java/lang/invoke/MethodHandle"]
  | .methodType => .ok [.reference "java/lang/invoke/MethodType"]
  | .dynamic => do
    let descriptor ← pool.memberDescriptor index
    match FieldType.ofDescriptor descriptor with
    | .error _ => .error (.invalidDynamicConstantType descriptor)
    | .ok type =>
      let slots := SlotType.slotsOf type
      if slots.length = if wide then 2 else 1 then .ok slots
      else .error (.illegalConstantPoolType index.toNat)
  | _ => .error .invalidLdcIndex

def loadableKinds (wide : Bool) : List ConstantKind :=
  if wide then [.long, .double, .dynamic]
  else [.integer, .float, .string, .classRef, .methodHandle, .methodType, .dynamic]

def loadConstant (m : Body) (index : UInt16) (wide : Bool) (f : Frame) : Except Cause Frame := do
  let kind ← m.owner.pool.kindAmong index (loadableKinds wide)
  f.pushAll (← constantSlots m.owner.pool index wide kind)

def loadNumber (kind : NumberKind) (index : Nat) (f : Frame) : Check Frame := do
  match kind.type.second? with
  | some second =>
    f.loadPair index kind.type second
    return f
  | none => return (← f.load index kind.type).2

def load (kind : ValueKind) (index : Nat) (f : Frame) : Check Frame := do
  match kind with
  | .number number => (← loadNumber number index f).pushAll number.slots
  | .reference =>
    let (type, f) ← f.load index .anyReference
    f.push type

def store (kind : ValueKind) (index : Nat) (f : Frame) : Check Frame := do
  match kind with
  | .number number => (← f.popAll number.slots).store index number.type
  | .reference =>
    let (type, f) ← f.popExpected .anyReference
    f.store index type

def increment (index : Nat) (f : Frame) : Check Frame := do
  let (type, f) ← f.load index .integer
  f.store index type

/-- The array of an array instruction, which has to hold such elements. -/
def popArray (kind : ElementKind) (f : Frame) : Check (SlotType × Frame) := do
  let (_, f) ← f.popExpected .integer
  let (array, f) ← f.popExpected .anyReference
  .require (kind.isElementOf array) .badType
  return (array, f)

/-- What an array of references holds; the array may be null. -/
def elementType (array : SlotType) : Except Cause SlotType :=
  match array with
  | .null => .ok .null
  | _ => array.component?.elim (.error .badType) .ok

def arrayLoad (kind : ElementKind) (f : Frame) : Check Frame := do
  let (array, f) ← popArray kind f
  match kind with
  | .reference => f.push (← elementType array)
  | _ => f.pushAll kind.slots

def arrayStore (kind : ElementKind) (f : Frame) : Check Frame := do
  return (← popArray kind (← f.popAll kind.slots)).2

def duplicate (count under : Nat) (f : Frame) : Check Frame := do
  let (upper, f) ← f.popSlots count
  let (lower, f) ← f.popSlots under
  f.pushAll (upper ++ lower ++ upper).reverse

def swap (f : Frame) : Check Frame := do
  let (upper, f) ← f.popSlots 1
  let (lower, f) ← f.popSlots 1
  f.pushAll (upper ++ lower)

def checkSwitch (m : Body) (table : Switch) (f : Frame) : Check Frame := do
  .require (dynamicVersion ≤ m.owner.version || table.padding.all (· = 0)) .nonZeroSwitchPadding
  let f ← f.popAll [.integer]
  Switch.checkCases table.cases
  return f

def returnValue (m : Body) (kind : ValueKind) (f : Frame) : Check Frame := do
  let (type, f) ← match kind with
    | .number number => do pure (number.type, ← f.popAll number.slots)
    | .reference => f.popExpected .anyReference
  .require (m.resultType ≠ .bogus) .unexpectedReturnValue
  .require (← m.resultType.accepts type) .badReturnType
  return f

/-- A constructor returns only after it has initialized its receiver. -/
def returnVoid (m : Body) (f : Frame) : Except Cause Frame :=
  if m.resultType ≠ .bogus then .error .expectedReturnValue
  else if m.method.isConstructor && f.thisPending then .error .constructorMustCallSuper
  else .ok f

def allocate (m : Body) (index : UInt16) (f : Frame) : Except Cause Frame := do
  if (← m.classType index).isObject then f.push (.uninitialized f.offset)
  else .error .illegalNew

def newArray (code : UInt8) (f : Frame) : Check Frame := do
  let name ← Check.ofOption .illegalNewArray (ClassName.ofArrayCode? code)
  (← f.popAll [.integer]).push (.reference name)

def newReferenceArray (m : Body) (index : UInt16) (f : Frame) : Check Frame := do
  let _ ← m.classType index
  let name ← m.owner.pool.className index
  let f ← f.popAll [.integer]
  .require (!ClassName.isFull name) .tooManyArrayDimensions
  f.push (.reference (ClassName.arrayOf name))

def newMultiArray (m : Body) (index : UInt16) (dimensions : Nat) (f : Frame) : Check Frame := do
  let array ← m.classType index
  .require array.isArray .illegalMultiNewArrayIndex
  .require (0 < dimensions && dimensions ≤ array.dimensions)
    (.illegalMultiNewArrayDimension dimensions)
  (← f.popAll (List.replicate dimensions .integer)).push array

def arrayLength (f : Frame) : Check Frame := do
  let (array, f) ← f.popExpected .anyReference
  .require (array = .null || array.isArray) .badType
  f.push .integer

/-- A cast or a test of an object against a class, which leaves a value of the given type. -/
def testObject (m : Body) (index : UInt16) (result : SlotType → SlotType) (f : Frame) :
    Check Frame := do
  let type ← m.classType index
  (← f.popAll [.reference ClassName.object]).push (result type)

/-- What the instruction does to the frame, jump targets aside. -/
def effect (m : Body) (i : Instruction) (f : Frame) : Check (Flow × Frame) := do
  match i with
  | .nop => return (.next, f)
  | .const (.number number) => return (.next, ← f.pushAll number.slots)
  | .const .reference => return (.next, ← f.push .null)
  | .loadConstant index => return (.next, ← m.loadConstant index false f)
  | .loadWideConstant index => return (.next, ← m.loadConstant index true f)
  | .load kind index => return (.next, ← load kind index.toNat f)
  | .store kind index => return (.next, ← store kind index.toNat f)
  | .increment index => return (.next, ← increment index.toNat f)
  | .arrayLoad kind => return (.next, ← arrayLoad kind f)
  | .arrayStore kind => return (.next, ← arrayStore kind f)
  | .discard count => return (.next, (← f.popSlots count).2)
  | .duplicate count under => return (.next, ← duplicate count under f)
  | .swap => return (.next, ← swap f)
  | .compute operands result =>
    return (.next, ← (← f.popAll (operands.flatMap (·.slots))).pushAll result.slots)
  | .branch test _ => return (.next, ← f.popAll test.operands)
  | .jump _ => return (.jump, f)
  | .subroutine opcode widened =>
    if widened then .reject .badWideInstruction else .reject (.badInstruction opcode)
  | .switch table => return (.jump, ← m.checkSwitch table f)
  | .returnValue kind => return (.leave, ← m.returnValue kind f)
  | .returnVoid => return (.leave, ← m.returnVoid f)
  | .field access index => return (.next, ← m.accessField access index f)
  | .call kind index => m.call kind index f
  | .new index => return (.next, ← m.allocate index f)
  | .newArray code => return (.next, ← newArray code f)
  | .newReferenceArray index => return (.next, ← m.newReferenceArray index f)
  | .newMultiArray index dimensions =>
    return (.next, ← m.newMultiArray index dimensions.toNat f)
  | .arrayLength => return (.next, ← arrayLength f)
  | .throw => return (.throw, ← f.popAll [.reference ClassName.throwable])
  | .cast index => return (.next, ← m.testObject index id f)
  | .isInstance index => return (.next, ← m.testObject index (fun _ => .integer) f)
  | .monitor => return (.next, ← f.popAll [.anyReference])

/-- The frame may flow into every target. -/
def checkTargets (m : Body) (f : Frame) : List Int → Check Unit
  | [] => return ()
  | target :: more => do
    m.stackMap.checkTarget m.listing.length f target
    m.checkTargets f more

/-- What the instruction does to the frame, with every jump target checked against the result. -/
def execute (m : Body) (i : Instruction) (f : Frame) : Check (Flow × Frame) := do
  let (flow, after) ← m.effect i f
  m.checkTargets after i.targets
  return (flow, after)

end Body
end ClassVerifier
