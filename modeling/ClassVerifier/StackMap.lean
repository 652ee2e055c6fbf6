import ClassVerifier.Frame.Typed

/-! The frames that a method records, in ascending order of their offsets. -/
namespace ClassVerifier

structure StackMap where
  frames : Array Frame := #[]
  deriving DecidableEq

namespace StackMap

/-- Binary search among the frames from `low` up to but not including `high`. -/
def search (frames : Array Frame) (target : Int) (low high : Nat) : Option Frame :=
  if _h : low < high then
    let middle := (low + high) / 2
    match frames[middle]? with
    | none => none
    | some f =>
      if (f.offset : Int) = target then some f
      else if (f.offset : Int) < target then search frames target (middle + 1) high
      else search frames target low middle
  else none
termination_by high - low

def frameAt? (m : StackMap) (target : Int) : Option Frame :=
  search m.frames target 0 m.frames.size

/-- The frame that a branch target has to have. -/
def frameAt (m : StackMap) (target : Int) : Check Frame :=
  .ofOption (.expectingStackMapFrameAtTarget target) (m.frameAt? target)

/-- A branch to the target is in order: a frame is recorded there, inside the code, and the current
frame may flow into it. -/
def checkTarget (m : StackMap) (codeLength : Nat) (f : Frame) (target : Int) : Check Unit := do
  let recorded ← m.frameAt target
  let inside := decide (0 ≤ target ∧ target < codeLength)
  if inside then .require (← f.flowsInto recorded) (.inconsistentStackMapFrames target)
  else .reject (.inconsistentStackMapFrames target)

end StackMap
end ClassVerifier
