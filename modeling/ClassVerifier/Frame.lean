import ClassVerifier.Model
import ClassVerifier.Stack

/-! The types of all local variables and operand stack slots in front of one instruction. -/
namespace ClassVerifier

/-- The locals always number `maxLocals`; from `used` on they are unused. -/
structure Frame where
  offset : Nat
  used : Nat
  maxLocals : Nat
  maxStack : Nat
  /-- The receiver of the constructor is not initialized yet. -/
  thisPending : Bool
  locals : Array SlotType
  stack : Stack
  deriving DecidableEq

namespace Frame

/-- No local in use and an empty stack. -/
def empty (maxLocals maxStack : Nat) : Frame where
  offset := 0
  used := 0
  maxLocals
  maxStack
  thisPending := false
  locals := Array.replicate maxLocals .top
  stack := .empty

/-- Cuts or fills the locals so that they number as many as given. -/
def padded (size : Nat) (locals : List SlotType) : Array SlotType :=
  (locals.take size).toArray ++ Array.replicate (size - locals.length) .top

/-- The locals in use. -/
def usedLocals (f : Frame) : List SlotType := (f.locals.extract 0 f.used).toList

/-- The operand stack, bottom first. -/
def operands (f : Frame) : List SlotType := f.stack.slots.reverse

def push (f : Frame) (t : SlotType) : Except Cause Frame :=
  if f.stack.depth < f.maxStack then .ok { f with stack := f.stack.push t }
  else .error .stackOverflow

/-- Pushes the types in order, so that the last one becomes the top. -/
def pushAll (f : Frame) : List SlotType → Except Cause Frame
  | [] => .ok f
  | t :: ts => do (← f.push t).pushAll ts

/-- Takes off the top whatever its type. -/
def pop (f : Frame) : Except Cause (SlotType × Frame) :=
  match f.stack.pop? with
  | none => .error .stackUnderflow
  | some (t, rest) => .ok (t, { f with stack := rest })

/-- Replaces a type wherever it occurs; replacing the pending receiver settles it. -/
def replaceAll (f : Frame) (old new : SlotType) : Frame :=
  let swap := fun t => if t = old then new else t
  { f with
    locals := f.locals.map swap
    stack := f.stack.map swap
    thisPending := f.thisPending && old ≠ .uninitializedThis }

/-- The same locals with an empty stack. -/
def inHandler (f : Frame) (thisPending : Bool) : Frame := { f with stack := .empty, thisPending }

/-- Takes over locals, stack and receiver of another frame. -/
def adopt (f other : Frame) : Frame :=
  { f with
    used := other.used
    locals := other.locals
    stack := other.stack
    thisPending := other.thisPending }

/-- The locals a method starts with: its receiver and its parameters. -/
def entryLocals (m : Method) (thisType : SlotType) (type : MethodType) : List SlotType :=
  let receiver :=
    if m.isStatic then []
    else if m.isConstructor && thisType.name? ≠ some ClassName.object then [.uninitializedThis]
    else [thisType]
  receiver ++ type.parameters.flatMap SlotType.slotsOf

/-- The frame in front of a method's first instruction, and the type of its result. -/
def entry (m : Method) (thisType : SlotType) (maxLocals maxStack : Nat) :
    Except Cause (Frame × SlotType) :=
  match MethodType.ofDescriptor m.descriptor with
  | .error _ => .error (.invalidMethodSignature m.descriptor)
  | .ok type =>
    let locals := entryLocals m thisType type
    if maxLocals < locals.length then .error .insufficientMaxLocals
    else
      let frame := { empty maxLocals maxStack with
        used := locals.length
        locals := padded maxLocals locals
        thisPending := locals.head? = some .uninitializedThis }
      .ok (frame, (type.result.map SlotType.ofFieldType).getD .bogus)

private def joined (types : List SlotType) : String :=
  String.intercalate ", " (types.map SlotType.text)

def text (f : Frame) : String :=
  let start := "@" ++ toString f.offset ++ " locals: [" ++ joined f.usedLocals ++ "] stack: [" ++
    joined f.operands ++ "]"
  if f.thisPending then start ++ " flags: this_uninit" else start

end Frame
end ClassVerifier
