import ClassVerifier.Body

/-! Field accesses and calls. -/
namespace ClassVerifier.Body

def fieldType (descriptor : String) : Except Cause FieldType :=
  match FieldType.ofDescriptor descriptor with
  | .ok type => .ok type
  | .error _ => .error (.invalidFieldSignature descriptor)

def methodType (descriptor : String) : Except Cause MethodType :=
  match MethodType.ofDescriptor descriptor with
  | .ok type => .ok type
  | .error _ => .error (.invalidMethodSignature descriptor)

/-- A constructor may assign a field of its own class before its receiver is initialized. -/
def assignee (m : Body) (target object : SlotType) (name descriptor : String) : SlotType :=
  if object = .uninitializedThis ∧ target = m.thisType ∧ m.owner.declaresField name descriptor
  then m.thisType else object

def accessField (m : Body) (access : FieldAccess) (index : UInt16) (f : Frame) : Check Frame := do
  let pool := m.owner.pool
  let _ ← pool.kindAmong index [.fieldRef]
  let name ← pool.memberName index
  let descriptor ← pool.memberDescriptor index
  let slots := SlotType.slotsOf (← fieldType descriptor)
  let target := SlotType.reference (← pool.ownerName index)
  .require (target.isObject || (access.isStatic && target.isArray))
    (.expectingClassReference m.owner.name index.toNat)
  match access with
  | .getStatic => f.pushAll slots
  | .putStatic => f.popAll slots
  | .getField =>
    let (_, f) ← f.popExpected target
    f.pushAll slots
  | .putField =>
    let f ← f.popAll slots
    let (object, f) ← f.pop
    let object := m.assignee target object name descriptor
    .require (← target.accepts object) .badPutfieldOperand
    return f

/-- Calls of interface methods as if they were methods of a class begin with this version. -/
def staticInterfaceVersion : UInt16 := 52

/-- Dynamic calls begin with this version, and switches need no zero padding from it on. -/
def dynamicVersion : UInt16 := 51

/-- The kinds of entry that a call may refer to. -/
def callTargets (version : UInt16) : CallKind → List ConstantKind
  | .interface .. => [.interfaceMethodRef]
  | .dynamic .. => [.invokeDynamic]
  | .virtual => [.methodRef]
  | .special | .static =>
    if staticInterfaceVersion ≤ version then [.methodRef, .interfaceMethodRef] else [.methodRef]

/-- The declaring class of the called method; a dynamic call has none. -/
def callOwner (m : Body) (kind : CallKind) (index : UInt16) :
    Except Cause (Option String) := do
  match kind with
  | .dynamic .. =>
    if m.owner.version < dynamicVersion then
      throw (.invokeDynamicUnsupported m.owner.version.toNat)
    return none
  | _ => return some (← m.owner.pool.ownerName index)

/-- The operand bytes behind the pool index say what the format demands. -/
def callBytes (kind : CallKind) (arguments : Nat) : Except Cause Unit :=
  match kind with
  | .interface count reserved =>
    if count.toNat ≠ arguments + 1 then .error .inconsistentInterfaceArgsCount
    else if reserved ≠ 0 then .error .nonZeroInvokeInterfaceByte
    else .ok ()
  | .dynamic third fourth =>
    if third ≠ 0 ∨ fourth ≠ 0 then .error .nonZeroInvokeDynamicBytes else .ok ()
  | _ => .ok ()

def isConstructorName (name : String) : Bool := name == "<init>"

/-- Names with an angle bracket are reserved for methods that only the machine calls. -/
def isInternalName (name : String) : Bool := name.toList.head? = some '<'

/-- The class itself, its superclass or one of its own interfaces. -/
def isNear (m : Body) (owner : String) : Bool :=
  m.thisType = .reference owner || owner ∈ m.owner.interfaces || m.owner.superclass = some owner

/-- A special call that is no constructor call stays in the class's own ancestry. -/
def checkSpecial (m : Body) (owner : String) (kind : ConstantKind) : Check Unit := do
  if m.isNear owner then return ()
  .require (← (SlotType.reference owner).accepts m.thisType) .badInvokeSpecial
  .require (kind ≠ .interfaceMethodRef) .indirectInterfaceInvokeSpecial

/-- Which method names a call may use. -/
def checkName (m : Body) (kind : CallKind) (owner : Option String) (name : String)
    (entry : ConstantKind) : Check Unit :=
  if isInternalName name then
    .require (kind = .special && isConstructorName name) .illegalInternalMethodCall
  else
    match kind, owner with
    | .special, some owner => m.checkSpecial owner entry
    | _, _ => return ()

/-- Every handler around a call that initializes the receiver has to end in a throw. -/
def checkThrows (m : Body) : List Handler → Except Cause Unit
  | [] => .ok ()
  | h :: more => do
    if ← m.listing.endsInThrow m.code.bytes h.target.toNat then m.checkThrows more
    else .error .initInTryBlock

/-- A constructor call, which turns its receiver into an object wherever it is held. -/
def construct (m : Body) (owner : String) (f : Frame) : Check (Flow × Frame) := do
  let (receiver, f) ← f.popExpected .anyReference
  match receiver with
  | .uninitializedThis =>
    .require (owner = m.owner.name || m.owner.superclass = some owner) .badInitCall
    if m.isProtected f.offset then
      m.checkThrows (m.handlersAt f.offset)
      m.checkHandlers f true
    return (.initialized, f.replaceAll receiver m.thisType)
  | .uninitialized offset =>
    let index ← Check.ofOption .expectingNewInstruction (Listing.newIndex? m.code.bytes offset)
    let created ← m.classType index
    .require (created = .reference owner) .wrongInitMethod
    if m.isProtected f.offset then
      m.checkHandlers f false
    return (.next, f.replaceAll receiver created)
  | _ => .reject .badInitOperand

/-- Takes the receiver of a call off the stack, if the call has one. -/
def popReceiver (m : Body) (kind : CallKind) (owner : Option String) (name : String)
    (f : Frame) : Check (Flow × Frame) := do
  match kind, owner with
  | .static, _ | _, none => return (.next, f)
  | _, some owner =>
    if isConstructorName name then m.construct owner f
    else
      let expected := if kind = .special then m.thisType else .reference owner
      let (_, f) ← f.popExpected expected
      return (.next, f)

def pushResult (name : String) (result : Option FieldType) (f : Frame) : Except Cause Frame :=
  match result with
  | none => .ok f
  | some type =>
    if isConstructorName name then .error .initMustReturnVoid
    else f.pushAll (SlotType.slotsOf type)

def call (m : Body) (kind : CallKind) (index : UInt16) (f : Frame) : Check (Flow × Frame) := do
  let pool := m.owner.pool
  let entry ← pool.kindAmong index (callTargets m.owner.version kind)
  let name ← pool.memberName index
  let type ← methodType (← pool.memberDescriptor index)
  let owner ← m.callOwner kind index
  let arguments := type.parameters.flatMap SlotType.slotsOf
  callBytes kind arguments.length
  m.checkName kind owner name entry
  let f ← f.popAll arguments
  let (flow, f) ← m.popReceiver kind owner name f
  return (flow, ← pushResult name type.result f)

end ClassVerifier.Body
