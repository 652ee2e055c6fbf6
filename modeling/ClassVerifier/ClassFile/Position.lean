import ClassVerifier.Instruction.Listing
import ClassVerifier.Model

/-! Positions in code, counted in instructions instead of bytes. A class file reader that keeps
instructions as a list gives exception table entries in this form. -/
namespace ClassVerifier

/-- An exception table entry counted in instructions: `stop` is the number of instructions that
start at or before the end of the protected code. -/
structure IndexedHandler where
  start : UInt16
  stop : UInt16
  target : UInt16
  catchIndex : UInt16
  deriving DecidableEq

/-- The entry counted in instructions; protected code and handler start at an instruction. -/
def Handler.indexed? (starts : List Nat) (h : Handler) : Option IndexedHandler := do
  let start ← starts.idxOf? h.start.toNat
  let target ← starts.idxOf? h.target.toNat
  return {
    start := .ofNat start
    stop := .ofNat (starts.countP (· ≤ h.stop.toNat))
    target := .ofNat target
    catchIndex := h.catchIndex }

namespace IndexedHandler

/-- The offset of the instruction with the given index; behind the last one it is the end. -/
def offset (starts : Array Nat) (length index : Nat) : UInt16 :=
  match starts[index]? with
  | some b => .ofNat b
  | none => .ofNat (min length 65535)

/-- The entry counted in bytes; it protects the code before the last instruction counted. -/
def handler (starts : Array Nat) (length : Nat) (h : IndexedHandler) : Handler :=
  let start := offset starts length h.start.toNat
  { start
    stop := if h.stop = 0 then start else offset starts length (h.stop.toNat - 1)
    target := offset starts length h.target.toNat
    catchIndex := h.catchIndex }

/-- The entries counted in bytes. -/
def handlers (code : Array UInt8) (entries : List IndexedHandler) : List Handler :=
  let starts := ((Listing.scan code 0).1.map (·.offset)).toArray
  entries.map (handler starts code.size)

end IndexedHandler
end ClassVerifier
