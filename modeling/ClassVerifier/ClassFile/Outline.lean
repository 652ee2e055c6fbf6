import ClassVerifier.Bytes
import ClassVerifier.Constant

/-! Finding the bodies of methods in a class file by counts and declared lengths alone. -/
namespace ClassVerifier.Outline

inductive Defect where
  /-- The bytes end inside a count, length, index or tag. -/
  | endInNumber
  /-- The bytes end inside something that is passed over. -/
  | endInContent
  | unknownTag (tag : UInt8)
  /-- The index of a constant leaves its sixteen bits, which is no error but a breakdown. -/
  | overflow
  deriving DecidableEq

def Defect.message : Defect → String
  | endInNumber => "failed to fill whole buffer"
  | endInContent => "unexpected end of file"
  | unknownTag tag => s!"unknown constant pool tag {tag}"
  | overflow => "attempt to add with overflow"

abbrev OutlineReader := Reader Defect

private def byte : OutlineReader UInt8 := Reader.byte .endInNumber
private def word : OutlineReader UInt16 := Reader.word .endInNumber
private def long : OutlineReader Nat := Reader.long .endInNumber

def skip (count : Nat) : OutlineReader Unit := do
  let _ ← Reader.take .endInContent count

/-- How many bytes a constant has behind its tag, and how many indices it takes. -/
def extent (tag : UInt8) : OutlineReader (Nat × UInt16) :=
  match tag with
  | 1 => do return ((← word).toNat, 1)
  | 3 | 4 | 9 | 10 | 11 | 12 | 17 | 18 => return (4, 1)
  | 5 | 6 => return (8, 2)
  | 7 | 8 | 16 | 19 | 20 => return (2, 1)
  | 15 => return (3, 1)
  | _ => Reader.fail (.unknownTag tag)

private theorem length_of_extent {tag : UInt8} {bytes rest : List UInt8} {e : Nat × UInt16}
    (h : extent tag bytes = .ok (e, rest)) : rest.length ≤ bytes.length := by
  unfold extent at h
  split at h
  · obtain ⟨size, middle, hword, hpure⟩ := Reader.bind_eq_ok.1 h
    have := Reader.length_of_word hword
    have := (Reader.pure_eq_ok.1 hpure).2
    subst this
    omega
  all_goals first
    | exact (Reader.pure_eq_ok.1 h).2 ▸ Nat.le_refl _
    | simp [Reader.fail] at h

/-- Passes over a constant and tells how many indices it takes. -/
def skipConstant : OutlineReader UInt16 := do
  let (size, indices) ← extent (← byte)
  skip size
  return indices

theorem length_of_skipConstant {bytes rest : List UInt8} {indices : UInt16}
    (h : skipConstant bytes = .ok (indices, rest)) : rest.length < bytes.length := by
  simp only [skipConstant, skip, byte, Reader.bind_eq_ok, Reader.byte_eq_ok, Reader.pure_eq_ok,
    Reader.take_eq_ok] at h
  obtain ⟨tag, inner, rfl, ⟨size, n⟩, behind, hextent, -, last, ⟨taken, middle, ⟨-, rfl⟩, -, rfl⟩,
    -, rfl⟩ := h
  have hinner := length_of_extent hextent
  simp only [List.length_append, List.length_cons] at hinner ⊢
  omega

/-- Passes over constants while the index is below the count. An index has sixteen bits, and
breaks down if it is to leave them. -/
def skipConstants (count index : UInt16) (bytes : List UInt8) : Except Defect (List UInt8) :=
  if index < count then
    match _h : skipConstant bytes with
    | .ok (indices, rest) =>
      if index.toNat + indices.toNat < 65536 then skipConstants count (index + indices) rest
      else .error .overflow
    | .error d => .error d
  else .ok bytes
termination_by bytes.length
decreasing_by exact length_of_skipConstant ‹_›

def skipAttribute : OutlineReader Unit := do
  skip 2
  skip (← long)

def skipField : OutlineReader Unit := do
  skip 6
  let _ ← Reader.times (← word).toNat skipAttribute

/-- Whether a pool entry is the text that names attributes with a body. -/
def namesCode (pool : ConstantPool) (index : UInt16) : Bool :=
  match pool.utf8 index with
  | .ok name => name == "Code"
  | .error _ => false

/-- The name and all bytes of an attribute, its header included. -/
def attributeBytes : OutlineReader (UInt16 × List UInt8) := fun bytes => do
  let (name, rest) ← word bytes
  let (length, rest) ← long rest
  let (_, rest) ← skip length rest
  return ((name, bytes.take (6 + length)), rest)

/-- The last one of the next attributes that has the name of bodies. -/
def lastCode (pool : ConstantPool) :
    Nat → Option (List UInt8) → OutlineReader (Option (List UInt8))
  | 0, found => return found
  | n + 1, found => do
    let (name, whole) ← attributeBytes
    lastCode pool n (if namesCode pool name then some whole else found)

/-- The attribute with the body of a method, if there is one. -/
def method (pool : ConstantPool) : OutlineReader (Option (List UInt8)) := do
  skip 6
  lastCode pool (← word).toNat none

/-- Passes over everything before the methods. -/
def skipToMethods : OutlineReader Unit := do
  skip 8
  let count ← word
  fun bytes => (((), ·)) <$> skipConstants count 1 bytes
  skip 6
  skip (2 * (← word).toNat)
  let _ ← Reader.times (← word).toNat skipField

/-- For each method in order the attribute with its body. -/
def codeAttributes (pool : ConstantPool) (bytes : List UInt8) :
    Except Defect (List (Option (List UInt8))) :=
  (·.1) <$> (do
    skipToMethods
    Reader.times (← word).toNat (method pool) : OutlineReader _) bytes

end ClassVerifier.Outline
