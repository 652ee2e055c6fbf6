import ClassVerifier.Bytes
import ClassVerifier.Instruction.Listing
import ClassVerifier.StackMap

/-! Reading recorded frames from their compressed form, in which each frame is described relative
to the one before it. -/
namespace ClassVerifier.StackMap

inductive Defect where
  | pastEnd
  | wrongSize
  | reservedFrameType (code : UInt8)
  | badOffset (offset : Nat)
  | chopsTooMany (count : Nat)
  | tooManyLocals
  | tooMuchStack
  | badClassIndex (index : UInt16)
  | badAllocation (offset : UInt16)
  | badType (code : UInt8)
  deriving DecidableEq

namespace Defect

def message : Defect → String
  | pastEnd => "access beyond the end of attribute"
  | wrongSize => "wrong attribute size"
  | reservedFrameType code => s!"reserved frame type {code}"
  | badOffset offset => s!"bad offset {offset}"
  | chopsTooMany count => s!"chop frame removes {count} locals"
  | tooManyLocals => "frame has more locals than allowed"
  | tooMuchStack => "frame has more stack than allowed"
  | badClassIndex index => s!"bad class index {index}"
  | badAllocation offset => s!"bad offset {offset} for Uninitialized"
  | badType code => s!"bad verification type {code}"

def fault (d : Defect) : Fault := .rejected none (.stackMapFormat d.message)

end Defect

/-- What recorded frames refer to. -/
structure Surroundings where
  maxLocals : Nat
  maxStack : Nat
  listing : Listing
  pool : ConstantPool

abbrev FrameReader := Reader Fault

private def byte : FrameReader UInt8 := Reader.byte Defect.pastEnd.fault
private def word : FrameReader UInt16 := Reader.word Defect.pastEnd.fault
private def fail {α : Type} (d : Defect) : FrameReader α := Reader.fail d.fault

/-- One type, by its tag. -/
def slotType (s : Surroundings) : FrameReader SlotType := do
  let code ← byte
  match code with
  | 0 => return .top
  | 1 => return .integer
  | 2 => return .float
  | 3 => return .double
  | 4 => return .long
  | 5 => return .null
  | 6 => return .uninitializedThis
  | 7 =>
    let index ← word
    match s.pool.className index with
    | .ok name => return .reference name
    | .error _ => fail (.badClassIndex index)
  | 8 =>
    let offset ← word
    match s.listing.allocation? offset.toNat with
    | some _ => return .uninitialized offset.toNat
    | none => fail (.badAllocation offset)
  | _ => fail (.badType code)

/-- Reads types and puts the slots of each in front of those before, as long as there is room. -/
def slots (s : Surroundings) (excess : Defect) :
    Nat → Nat → List SlotType → FrameReader (List SlotType)
  | 0, _, before => return before
  | n + 1, room, before => do
    let type ← slotType s
    let size := type.slots.length
    if room < size then fail excess
    else slots s excess n (room - size) (type.slots.reverse ++ before)

/-- The slots of the next local variables, the last one first. -/
def localSlots (s : Surroundings) (count room : Nat) : FrameReader (List SlotType) :=
  slots s .tooManyLocals count room []

/-- The slots of the next operands, the top first. -/
def stackSlots (s : Surroundings) (count : Nat) : FrameReader (List SlotType) :=
  slots s .tooMuchStack count s.maxStack []

/-- Removes the last values, of one slot or two; the locals are given with the last one first. -/
def chop : Nat → List SlotType → Except Fault (Option (List SlotType))
  | 0, locals => .ok (some locals)
  | _ + 1, [] => .ok none
  | n + 1, last :: locals =>
    if last.isSecond then
      match locals with
      | [] => .error (.crashed "a second slot without a first one")
      | _ :: locals => chop n locals
    else chop n locals

/-- The pending receiver is among the locals. -/
def holdsReceiver (locals : List SlotType) : Bool := .uninitializedThis ∈ locals

/-- How far a frame is from the one before, or whether its type is reserved. -/
def offsetDelta (code : UInt8) : FrameReader Nat :=
  if code < 64 then return code.toNat
  else if code < 128 then return code.toNat - 64
  else if code < 247 then fail (.reservedFrameType code)
  else do return (← word).toNat

/-- Locals, stack and receiver of a frame of the given type; the stack has its top first. -/
def contents (s : Surroundings) (previous : Frame) (code : UInt8) :
    FrameReader (List SlotType × List SlotType × Bool) := do
  let locals := previous.usedLocals
  if code < 64 ∨ code = 251 then
    return (locals, [], previous.thisPending)
  else if code < 128 ∨ code = 247 then
    return (locals, ← stackSlots s 1, previous.thisPending)
  else if code < 251 then
    let count := 251 - code.toNat
    match chop count locals.reverse with
    | .ok (some kept) => return (kept.reverse, [], holdsReceiver kept)
    | .ok none => fail (.chopsTooMany count)
    | .error fault => Reader.fail fault
  else if code < 255 then
    let added ← localSlots s (code.toNat - 251) (s.maxLocals - locals.length)
    return (locals ++ added.reverse, [], previous.thisPending || holdsReceiver added)
  else
    let locals ← localSlots s (← word).toNat s.maxLocals
    let stack ← stackSlots s (← word).toNat
    return (locals.reverse, stack, holdsReceiver locals)

/-- The frame behind the previous one; the very first is counted from the start of the code. -/
def frame (s : Surroundings) (previous : Frame) (first : Bool) : FrameReader Frame := do
  let code ← byte
  let delta ← offsetDelta code
  let offset := if first then delta else previous.offset + delta + 1
  if !s.listing.isStart offset then fail (.badOffset offset)
  else
    let (locals, stack, thisPending) ← contents s previous code
    return {
      offset
      used := locals.length
      maxLocals := s.maxLocals
      maxStack := s.maxStack
      thisPending
      locals := Frame.padded s.maxLocals locals
      stack := .ofSlots stack }

/-- Reads more frames, each relative to the last one before it. -/
def framesFrom (s : Surroundings) (initial : Frame) :
    Nat → Array Frame → FrameReader (Array Frame)
  | 0, before, bytes => .ok (before, bytes)
  | n + 1, before, bytes =>
    match frame s (before.back?.getD initial) before.isEmpty bytes with
    | .ok (f, rest) => framesFrom s initial n (before.push f) rest
    | .error fault => .error fault

/-- All frames of a payload, which has to end with the last one. -/
def allFrames (s : Surroundings) (initial : Frame) : FrameReader (Array Frame) := do
  let count ← word
  framesFrom s initial count.toNat #[]

/-- The recorded frames of a method; a method without a payload has none. -/
def ofPayload (s : Surroundings) (initial : Frame) :
    Option (List UInt8) → Except Fault StackMap
  | none => .ok {}
  | some payload =>
    match allFrames s initial payload with
    | .ok (all, []) => .ok ⟨all⟩
    | .ok (_, _ :: _) => .error Defect.wrongSize.fault
    | .error fault => .error fault

end ClassVerifier.StackMap
