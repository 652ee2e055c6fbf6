import ClassVerifier.ClassFile.Parser

/-! Annotations of a class file. Verification has no use for them, but their tags have to be known
for it to find out where they end. -/
namespace ClassVerifier.ClassFile

open ClassFile.Parser

/-- An annotation whose elements have the given values. -/
def annotationOf (value : Parser Unit) : Parser Unit := do
  skip 2
  skipTable (do skip 2; value)

/-- The value of an element, with values that stand less than `depth` deep in each other. -/
def elementValue : Nat → Parser Unit
  | 0 => fail
  | depth + 1 => do
    match Char.ofNat (← byte).toNat with
    | 'B' | 'C' | 'D' | 'F' | 'I' | 'J' | 'S' | 'Z' | 's' | 'c' => skip 2
    | 'e' => skip 4
    | '@' => annotationOf (elementValue depth)
    | '[' => skipTable (elementValue depth)
    | _ => fail

def annotationWithin (depth : Nat) : Parser Unit := annotationOf (elementValue depth)

/-- What the annotation of a type is about. -/
def annotationTarget : Parser Unit := do
  let kind ← byte
  if kind ≤ 0x01 then skip 1
  else if kind = 0x10 then skip 2
  else if kind = 0x11 ∨ kind = 0x12 then skip 2
  else if 0x13 ≤ kind ∧ kind ≤ 0x15 then return ()
  else if kind = 0x16 then skip 1
  else if kind = 0x17 then skip 2
  else if kind = 0x40 ∨ kind = 0x41 then skipTable (skip 6)
  else if 0x42 ≤ kind ∧ kind ≤ 0x46 then skip 2
  else if 0x47 ≤ kind ∧ kind ≤ 0x4b then skip 3
  else fail

/-- The annotation of a type: its target, the way into the type, and the annotation. -/
def typeAnnotationWithin (depth : Nat) : Parser Unit := do
  annotationTarget
  skipShortTable (skip 2)
  annotationWithin depth

end ClassVerifier.ClassFile
