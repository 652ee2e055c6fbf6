import ClassVerifier.Completion
import ClassVerifier.StackMap.Decode

/-! A method body with all that its instructions are checked against, and the frames that its
exception handlers see. -/
namespace ClassVerifier

/-- How control leaves an instruction that completes. -/
inductive Flow where
  | next
  /-- On to the next instruction, with the constructor's receiver now initialized. -/
  | initialized
  | jump
  | throw
  | leave
  deriving DecidableEq

/-- The next instruction may come next. -/
def Flow.continues : Flow → Bool
  | next | initialized => true
  | _ => false

structure Body where
  owner : ClassModel
  method : Method
  code : Code
  thisType : SlotType
  /-- The type of the result, `bogus` for void. -/
  resultType : SlotType
  listing : Listing
  stackMap : StackMap
  /-- No handler covers code before this offset. -/
  protectedStart : Nat
  /-- No handler covers code from this offset on. -/
  protectedStop : Nat

/-- What a handler finds on the stack; a handler without a class catches everything. -/
def Handler.caughtType (h : Handler) (pool : ConstantPool) : Except Cause SlotType :=
  if h.catchIndex = 0 then .ok (.reference ClassName.throwable)
  else (pool.className h.catchIndex).map .reference

namespace Body

/-- Some handler may cover the offset. -/
def isProtected (m : Body) (offset : Nat) : Bool :=
  m.protectedStart ≤ offset && offset < m.protectedStop

def handlersAt (m : Body) (offset : Nat) : List Handler :=
  m.code.handlers.filter (·.covers offset)

/-- What the handler sees if an exception is thrown with the locals of this frame. -/
def handlerFrame (m : Body) (h : Handler) (f : Frame) (thisPending : Bool) :
    Except Cause Frame := do
  (f.inHandler (f.thisPending || thisPending)).push (← h.caughtType m.owner.pool)

/-- The frame may flow into the handler, the receiver being pending if the frame or the argument
says so. -/
def checkHandler (m : Body) (f : Frame) (thisPending : Bool) (h : Handler) : Check Unit := do
  let seen ← m.handlerFrame h f thisPending
  let recorded ← m.stackMap.frameAt h.target.toNat
  .require (← seen.flowsInto recorded) (.handlerStackMapMismatch h.target.toNat)

def checkEach (m : Body) (f : Frame) (thisPending : Bool) : List Handler → Check Unit
  | [] => return ()
  | h :: more => do
    m.checkHandler f thisPending h
    m.checkEach f thisPending more

/-- The frame may flow into every handler that covers its offset. -/
def checkHandlers (m : Body) (f : Frame) (thisPending : Bool) : Check Unit :=
  m.checkEach f thisPending (m.handlersAt f.offset)

/-- The type named by a class entry. -/
def classType (m : Body) (index : UInt16) : Except Cause SlotType := do
  let _ ← m.owner.pool.kindAmong index [.classRef]
  return .reference (← m.owner.pool.className index)

end Body
end ClassVerifier
