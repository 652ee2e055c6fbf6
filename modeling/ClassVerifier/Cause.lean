import ClassVerifier.Hex

/-! Why a method is rejected, the wording of every reason, and the failure reported for a class. -/
namespace ClassVerifier

inductive Cause where
  | stackOverflow
  | stackUnderflow
  | badTypeOnStack (expected actual : String)
  | localsOverflow (index : Nat)
  | badLocalType (index : Nat) (expected actual : String)
  | insufficientMaxLocals
  | badType
  | expectingStackMapFrame
  | expectingStackMapFrameAtTarget (target : Int)
  | inconsistentStackMapFrames (target : Int)
  | stackMapMismatch
  | handlerStackMapMismatch (handler : Nat)
  | fallsThroughCodeEnd
  | badWideInstruction
  | badInstruction (opcode : UInt8)
  | invalidMethodSignature (descriptor : String)
  | invalidFieldSignature (descriptor : String)
  | invalidDynamicConstantType (descriptor : String)
  | illegalConstantPoolType (index : Nat)
  | invalidLdcIndex
  | expectingClassReference (className : String) (index : Nat)
  | badPutfieldOperand
  | badInitCall
  | initInTryBlock
  | expectingNewInstruction
  | wrongInitMethod
  | badInitOperand
  | inconsistentInterfaceArgsCount
  | nonZeroInvokeInterfaceByte
  | nonZeroInvokeDynamicBytes
  | illegalInternalMethodCall
  | badInvokeSpecial
  | indirectInterfaceInvokeSpecial
  | initMustReturnVoid
  | illegalNew
  | illegalNewArray
  | tooManyArrayDimensions
  | illegalMultiNewArrayIndex
  | illegalMultiNewArrayDimension (dimensions : Nat)
  | unexpectedReturnValue
  | expectedReturnValue
  | badReturnType
  | constructorMustCallSuper
  | nonZeroSwitchPadding
  | tableSwitchBounds
  | tooManySwitchKeys
  | negativeLookupSwitchCount
  | unsortedLookupSwitch
  | catchTypeNotThrowable (handler : Nat)
  | unresolvedClass (name : String)
  | hierarchyDepthLimitReached (name : String)
  | inferenceNotSupported
  | internal (message : String)
  | invalidCodeLength (length : Nat)
  | illegalInstruction (offset : Nat)
  | illegalConstantPoolIndex (index : Nat)
  | illegalExceptionTableStart (offset : Nat)
  | illegalExceptionTableEnd (offset : Nat)
  | illegalExceptionTableHandler (offset : Nat)
  | illegalLocalVariableStart (offset : Nat)
  | illegalLocalVariableLength (length : Nat)
  | badStackMapOffset (offset : Nat)
  | stackMapFormat (defect : String)
  | invokeDynamicUnsupported (version : Nat)
  deriving DecidableEq

/-- Malformed class data on one side, a breach of type or stack discipline on the other. -/
inductive Kind where
  | structural | typeSafety
  deriving DecidableEq

namespace Cause

def message : Cause → String
  | stackOverflow => "Operand stack overflow"
  | stackUnderflow => "Operand stack underflow"
  | badTypeOnStack expected actual =>
    s!"Bad type on operand stack: expected {expected}, found {actual}"
  | localsOverflow index => s!"Local variable table overflow at index {index}"
  | badLocalType index expected actual =>
    s!"Bad local variable type at index {index}: expected {expected}, found {actual}"
  | insufficientMaxLocals => "Insufficient max locals for method arguments"
  | badType => "Bad type"
  | expectingStackMapFrame => "Expecting a stack map frame"
  | expectingStackMapFrameAtTarget target =>
    s!"Expecting a stack map frame at branch target {target}"
  | inconsistentStackMapFrames target =>
    s!"Inconsistent stack map frames at branch target {target}"
  | stackMapMismatch => "Instruction type does not match stack map"
  | handlerStackMapMismatch handler =>
    s!"Stack map does not match the one at exception handler {handler}"
  | fallsThroughCodeEnd => "Control flow falls through code end"
  | badWideInstruction => "Bad wide instruction"
  | badInstruction opcode => "Bad instruction: " ++ Hex.text opcode
  | invalidMethodSignature descriptor => s!"Invalid method signature: {descriptor}"
  | invalidFieldSignature descriptor => s!"Invalid field signature: {descriptor}"
  | invalidDynamicConstantType descriptor =>
    s!"Invalid type for dynamic constant: {descriptor}"
  | illegalConstantPoolType index => s!"Illegal type at constant pool entry {index}"
  | invalidLdcIndex => "Invalid index in ldc"
  | expectingClassReference className index =>
    s!"Expecting reference to class in class {className} at constant pool index {index}"
  | badPutfieldOperand => "Bad type on operand stack in putfield"
  | badInitCall => "Bad <init> method call"
  | initInTryBlock => "Bad <init> method call from after the start of a try block"
  | expectingNewInstruction => "Expecting new instruction"
  | wrongInitMethod => "Call to wrong <init> method"
  | badInitOperand => "Bad operand type when invoking <init>"
  | inconsistentInterfaceArgsCount => "Inconsistent args count operand in invokeinterface"
  | nonZeroInvokeInterfaceByte => "Fourth operand byte of invokeinterface must be zero"
  | nonZeroInvokeDynamicBytes => "Third and fourth operand bytes of invokedynamic must be zero"
  | illegalInternalMethodCall => "Illegal call to internal method"
  | badInvokeSpecial =>
    "Bad invokespecial instruction: current class isn't assignable to reference class."
  | indirectInterfaceInvokeSpecial =>
    "Bad invokespecial instruction: interface method reference is in an indirect superinterface."
  | initMustReturnVoid => "Return type must be void in <init> method"
  | illegalNew => "Illegal new instruction"
  | illegalNewArray => "Illegal newarray instruction"
  | tooManyArrayDimensions =>
    "Illegal anewarray instruction, array has more than 255 dimensions"
  | illegalMultiNewArrayIndex => "Illegal constant pool index in multianewarray instruction"
  | illegalMultiNewArrayDimension dimensions =>
    s!"Illegal dimension in multianewarray instruction: {dimensions}"
  | unexpectedReturnValue => "Method does not expect a return value"
  | expectedReturnValue => "Method expects a return value"
  | badReturnType => "Bad return type"
  | constructorMustCallSuper => "Constructor must call super() or this() before return"
  | nonZeroSwitchPadding => "Nonzero padding byte in lookupswitch or tableswitch"
  | tableSwitchBounds => "low must be less than or equal to high in tableswitch"
  | tooManySwitchKeys => "too many keys in tableswitch"
  | negativeLookupSwitchCount => "number of keys in lookupswitch less than 0"
  | unsortedLookupSwitch => "Bad lookupswitch instruction"
  | catchTypeNotThrowable handler =>
    s!"Catch type is not a subclass of Throwable in exception handler {handler}"
  | unresolvedClass name => s!"Unable to resolve class {name}"
  | hierarchyDepthLimitReached name =>
    s!"Class hierarchy depth limit reached while resolving {name}"
  | inferenceNotSupported => "Inference verification is not supported"
  | internal message => s!"Internal verifier failure: {message}"
  | invalidCodeLength length => s!"Invalid method Code length {length}"
  | illegalInstruction offset => s!"Bad instruction at offset {offset}"
  | illegalConstantPoolIndex index => s!"Illegal constant pool index {index}"
  | illegalExceptionTableStart offset => s!"Illegal exception table start_pc {offset}"
  | illegalExceptionTableEnd offset => s!"Illegal exception table end_pc {offset}"
  | illegalExceptionTableHandler offset => s!"Illegal exception table handler_pc {offset}"
  | illegalLocalVariableStart offset => s!"Illegal local variable table start_pc {offset}"
  | illegalLocalVariableLength length => s!"Illegal local variable table length {length}"
  | badStackMapOffset offset => s!"Bad stack map offset {offset}"
  | stackMapFormat defect => s!"StackMapTable format error: {defect}"
  | invokeDynamicUnsupported version =>
    s!"invokedynamic instructions not supported by this class file version ({version})"

def kind : Cause → Kind
  | invalidCodeLength _ | illegalInstruction _ | illegalConstantPoolIndex _
  | illegalExceptionTableStart _ | illegalExceptionTableEnd _ | illegalExceptionTableHandler _
  | illegalLocalVariableStart _ | illegalLocalVariableLength _ | badStackMapOffset _
  | stackMapFormat _ | invokeDynamicUnsupported _ | nonZeroSwitchPadding | tableSwitchBounds
  | tooManySwitchKeys | negativeLookupSwitchCount | unsortedLookupSwitch => .structural
  | _ => .typeSafety

end Cause

/-- A failure reported for a class: without a method if the whole class is refused, and without an
offset if it was found before the first instruction. -/
structure Failure where
  className : String
  method : Option String := none
  offset : Option Nat := none
  cause : Cause
  deriving DecidableEq

namespace Failure

def kind (f : Failure) : Kind := f.cause.kind

def message (f : Failure) : String :=
  let method := (f.method.map ("." ++ ·)).getD ""
  let offset := (f.offset.map fun n => s!" @{n}").getD ""
  f.cause.message ++ " at " ++ f.className ++ method ++ offset

end Failure

/-- What stops a check: a cause, with the offset of the instruction it was found at, or a breakdown
that is no statement about the method. -/
inductive Fault where
  | rejected (offset : Option Nat) (cause : Cause)
  | crashed (message : String)
  deriving DecidableEq

/-- How a fault in one method is reported. -/
def Fault.toFailure (className method : String) : Fault → Failure
  | .rejected offset cause => ⟨className, some method, offset, cause⟩
  | .crashed message => ⟨className, some method, none, .internal message⟩

end ClassVerifier
