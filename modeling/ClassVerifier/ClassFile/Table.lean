import ClassVerifier.Bytes
import ClassVerifier.Model

/-! The tables of a method body, each with a count of two bytes in front. -/
namespace ClassVerifier

/-- A count and that many entries. -/
def Reader.table {ε α : Type} (short : ε) (entry : Reader ε α) : Reader ε (List α) := do
  Reader.times (← Reader.word short).toNat entry

def Handler.entry {ε : Type} (short : ε) : Reader ε Handler := do
  let start ← Reader.word short
  let stop ← Reader.word short
  let target ← Reader.word short
  let catchIndex ← Reader.word short
  return { start, stop, target, catchIndex }

def LocalVariable.entry {ε : Type} (short : ε) : Reader ε LocalVariable := do
  let start ← Reader.word short
  let length ← Reader.word short
  let name ← Reader.word short
  let descriptor ← Reader.word short
  let index ← Reader.word short
  return { start, length, name, descriptor, index }

end ClassVerifier
