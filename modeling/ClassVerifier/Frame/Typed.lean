import ClassVerifier.Assignable

/-! Frame operations that compare types: popping what is expected, reading and writing locals, and
the flow of one frame into another. -/
namespace ClassVerifier.Frame

/-- Takes off the top, which has to be as expected. -/
def popExpected (f : Frame) (expected : SlotType) : Check (SlotType × Frame) :=
  match f.stack.pop? with
  | none => .reject .stackUnderflow
  | some (actual, rest) => do
    if ← expected.accepts actual then return (actual, { f with stack := rest })
    else .reject (.badTypeOnStack expected.text actual.text)

/-- Takes off one slot for each type, the first type being for the top. -/
def popEach (f : Frame) : List SlotType → Check Frame
  | [] => return f
  | expected :: more => do
    let (_, f) ← f.popExpected expected
    f.popEach more

/-- Takes off slots of these types, the last type being for the top. -/
def popAll (f : Frame) (types : List SlotType) : Check Frame := f.popEach types.reverse

/-- Takes off two slots that are two values of one slot or one value of two, top first. -/
def popPair (f : Frame) : Check (List SlotType × Frame) := do
  let (upper, f) ← f.pop
  if upper.isSingle then
    let (lower, f) ← f.popExpected .anySingle
    return ([upper, lower], f)
  else if upper.isSecond then
    let (lower, f) ← f.popExpected .anyDouble
    return ([upper, lower], f)
  else .reject .badType

/-- Takes off up to two slots without splitting a value, top first. -/
def popSlots (f : Frame) : Nat → Check (List SlotType × Frame)
  | 0 => return ([], f)
  | 1 => do
    let (only, f) ← f.popExpected .anySingle
    return ([only], f)
  | _ => f.popPair

/-- The local at an index that has to be among the locals. -/
def localAt (f : Frame) (index : Nat) : Check SlotType :=
  match f.locals[index]? with
  | some t => return t
  | none => .crash s!"no local variable at index {index}"

/-- The local at the index, which has to be as expected. -/
def expectLocal (f : Frame) (index : Nat) (expected : SlotType) : Check SlotType := do
  let actual ← f.localAt index
  if ← expected.accepts actual then return actual
  else .reject (.badLocalType index expected.text actual.text)

/-- Reads a value of one slot; the local counts as used from now on. -/
def load (f : Frame) (index : Nat) (expected : SlotType) : Check (SlotType × Frame) :=
  if f.maxLocals ≤ index then .reject (.localsOverflow index)
  else do
    let actual ← f.expectLocal index expected
    return (actual, { f with used := max f.used (index + 1) })

/-- Reads a value of two slots, both of which have to be in use. -/
def loadPair (f : Frame) (index : Nat) (first second : SlotType) : Check Unit :=
  if f.used ≤ index + 1 then .reject (.localsOverflow index)
  else do
    let _ ← f.expectLocal index first
    let _ ← f.expectLocal (index + 1) second

/-- Writes consecutive slots. A value of two slots that loses one of them loses the other too. -/
def overwrite (locals : Array SlotType) (index : Nat) (types : List SlotType) :
    Array SlotType :=
  let stop := index + types.length
  let last := locals.getD (stop - 1) .top
  let first := locals.getD index .top
  let locals := if last.isFirst then locals.setIfInBounds stop .top else locals
  let locals :=
    if first.isSecond && 0 < index then locals.setIfInBounds (index - 1) .top else locals
  types.zipIdx.foldl (fun locals (t, i) => locals.setIfInBounds (index + i) t) locals

/-- Writes a value into the locals from the index on. -/
def store (f : Frame) (index : Nat) (type : SlotType) : Check Frame :=
  let stop := index + type.slots.length
  if f.maxLocals < stop then .reject (.localsOverflow index)
  else if f.locals.size < stop then .crash s!"no local variable at index {index}"
  else return { f with
    locals := overwrite f.locals index type.slots
    used := max f.used stop }

/-- The first locals, which have to be there. -/
def firstLocals (f : Frame) (count : Nat) : Check (List SlotType) :=
  if count ≤ f.locals.size then return (f.locals.extract 0 count).toList
  else .crash s!"no {count} local variables"

/-- Whether every slot may flow into the slot beside it; an unusable slot takes anything. -/
def allFlow : List (SlotType × SlotType) → Check Bool
  | [] => return true
  | (source, target) :: more => do
    if target = .top then allFlow more
    else if ← target.accepts source then allFlow more
    else return false

/-- Whether the frame may flow into the target. Locals count as far as the target uses them. -/
def flowsInto (f target : Frame) : Check Bool :=
  if f.maxLocals ≠ target.maxLocals ∨ f.stack.depth ≠ target.stack.depth then return false
  else do
    let sources ← f.firstLocals target.used
    let targets ← target.firstLocals target.used
    if ← allFlow (sources.zip targets ++ f.operands.zip target.operands) then
      return !f.thisPending || target.thisPending
    else return false

end ClassVerifier.Frame
