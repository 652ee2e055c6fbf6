import ClassVerifier.Execution

/-! Verification of one method: the checks of its tables, then one pass over its instructions that
carries the frame from each to the next. -/
namespace ClassVerifier

/-- What the walk carries to the next instruction. -/
structure Position where
  frame : Frame
  /-- The recorded frames that the walk has not come to yet. -/
  pending : List Frame
  /-- Control does not come here from the instruction before. -/
  cutOff : Bool

namespace Body

/-- A frame that is recorded for the current instruction takes over; control that comes from the
instruction before has to match it. Where no control comes from there, one has to be recorded. -/
def enter (f : Frame) (pending : List Frame) (cutOff : Bool) : Check (Frame × List Frame) := do
  match pending with
  | [] =>
    .require (!cutOff) .expectingStackMapFrame
    return (f, [])
  | recorded :: rest =>
    .require (!(cutOff && f.offset < recorded.offset)) .expectingStackMapFrame
    if recorded.offset = f.offset then
      if !cutOff then
        .require (← f.flowsInto recorded) .stackMapMismatch
      return (f.adopt recorded, rest)
    else
      .require (f.offset < recorded.offset) (.badStackMapOffset recorded.offset)
      return (f, pending)

/-- Applies an instruction and matches the handlers that cover it. An exception in a store is
thrown before the local is written, any other one may be thrown after the effect. -/
def step (m : Body) (i : Instruction) (f : Frame) : Check (Flow × Frame) := do
  let guarded := m.isProtected f.offset
  if guarded && i.isStore then
    m.checkHandlers f false
  let (flow, after) ← m.execute i f
  if guarded && !i.isStore then
    m.checkHandlers after (flow = .initialized)
  return (flow, after)

/-- Enters an instruction and applies it, and says what to go on with behind it. -/
def pass (m : Body) (i : Located) (p : Position) : Check Position := do
  let (f, pending) ← (enter { p.frame with offset := i.offset } p.pending p.cutOff).located
    i.offset
  .note f i.opcode fun _ => do
    let (flow, f) ← (m.step i.instruction f).located i.offset
    return ⟨f, pending, !flow.continues⟩

/-- Walks over the instructions from the offset on, reading each of them from the code. -/
def walk (m : Body) (b : Nat) (p : Position) : Check Unit :=
  if _h : b < m.code.bytes.size then
    match _h : Instruction.decode? m.code.bytes b with
    | none => (Check.reject (.illegalInstruction b)).located b
    | some i => do m.walk i.next (← m.pass i p)
  else (Check.require p.cutOff .fallsThroughCodeEnd).located p.frame.offset
termination_by m.code.bytes.size - b
decreasing_by
  have := Instruction.lt_next_of_decode? ‹_›
  omega

end Body

namespace Code

/-- A body has at least one byte and at most this many. -/
def maxLength : Nat := 65535

/-- A handler's range and target are made of whole instructions, and it catches throwables. -/
def checkHandler (code : Code) (listing : Listing) (pool : ConstantPool) (h : Handler) :
    Check Unit := do
  .require (listing.isStart h.start.toNat) (.illegalExceptionTableStart h.start.toNat)
  .require (h.stop.toNat = code.bytes.size || listing.isStart h.stop.toNat)
    (.illegalExceptionTableEnd h.stop.toNat)
  .require (listing.isStart h.target.toNat) (.illegalExceptionTableHandler h.target.toNat)
  if h.catchIndex ≠ 0 then
    let caught ← h.caughtType pool
    .require (← (SlotType.reference ClassName.throwable).accepts caught)
      (.catchTypeNotThrowable h.target.toNat)

def checkHandlers (code : Code) (listing : Listing) (pool : ConstantPool) :
    List Handler → Check Unit
  | [] => return ()
  | h :: more => do
    code.checkHandler listing pool h
    code.checkHandlers listing pool more

/-- From the lowest start to the highest stop of all handlers; empty if that is no range. -/
def protectedRange (code : Code) : Nat × Nat :=
  let low := code.handlers.foldl (fun n h => min n h.start.toNat) 65535
  let high := code.handlers.foldl (fun n h => max n h.stop.toNat) 0
  if low < high then (low, high) else (0, 0)

/-- A local variable's range is made of whole instructions. -/
def checkVariable (code : Code) (listing : Listing) (v : LocalVariable) : Except Cause Unit :=
  let stop := v.start.toNat + v.length.toNat
  if !listing.isStart v.start.toNat then .error (.illegalLocalVariableStart v.start.toNat)
  else if stop = code.bytes.size || listing.isStart stop then .ok ()
  else .error (.illegalLocalVariableLength v.length.toNat)

def checkVariables (code : Code) (listing : Listing) : List LocalVariable → Except Cause Unit
  | [] => .ok ()
  | v :: more => do
    code.checkVariable listing v
    code.checkVariables listing more

def listing (code : Code) : Except Cause Listing :=
  match Listing.ofCode code.bytes with
  | .ok listing => .ok listing
  | .error offset => .error (.illegalInstruction offset)

/-- The checks that come before the first instruction; they end with the body to be walked over and
the frame to begin with. -/
def prepare (code : Code) (owner : ClassModel) (method : Method) : Check (Body × Frame) := do
  .require (0 < code.bytes.size && code.bytes.size ≤ maxLength)
    (.invalidCodeLength code.bytes.size)
  let thisType := SlotType.reference owner.name
  let (initial, resultType) ←
    Frame.entry method thisType code.maxLocals.toNat code.maxStack.toNat
  let listing ← code.listing
  code.checkHandlers listing owner.pool code.handlers
  code.checkVariables listing code.localVariables
  let stackMap ← match StackMap.ofPayload
      ⟨code.maxLocals.toNat, code.maxStack.toNat, listing, owner.pool⟩ initial code.stackMap with
    | .ok stackMap => pure stackMap
    | .error fault => .stop fault
  let (protectedStart, protectedStop) := code.protectedRange
  return ({ owner, method, code, thisType, resultType, listing, stackMap, protectedStart,
            protectedStop }, initial)

end Code

/-- Verifies one method; without a body there is nothing to verify. -/
def Method.verify (owner : ClassModel) (method : Method) : Check Unit := do
  match method.code with
  | none => return ()
  | some code =>
    let (body, initial) ← code.prepare owner method
    body.walk 0 ⟨initial, body.stackMap.frames.toList, false⟩

end ClassVerifier
