/-! Field and method descriptors: the types they denote, their written form and their reader.
The reader takes back exactly what the printer writes for well formed types. -/
namespace ClassVerifier

inductive Primitive where
  | boolean | byte | char | double | float | int | long | short
  deriving DecidableEq

namespace Primitive

def letter : Primitive → Char
  | .boolean => 'Z'
  | .byte => 'B'
  | .char => 'C'
  | .double => 'D'
  | .float => 'F'
  | .int => 'I'
  | .long => 'J'
  | .short => 'S'

def ofLetter? : Char → Option Primitive
  | 'Z' => some .boolean
  | 'B' => some .byte
  | 'C' => some .char
  | 'D' => some .double
  | 'F' => some .float
  | 'I' => some .int
  | 'J' => some .long
  | 'S' => some .short
  | _ => none

theorem ofLetter?_letter (p : Primitive) : ofLetter? p.letter = some p := by
  cases p <;> rfl

end Primitive

/-- A field type; an array is its component type with one more dimension. -/
inductive FieldType where
  | primitive (kind : Primitive)
  | object (name : String)
  | array (component : FieldType)
  deriving DecidableEq

/-- A method type; no result means void. -/
structure MethodType where
  parameters : List FieldType
  result : Option FieldType
  deriving DecidableEq

namespace FieldType

def chars : FieldType → List Char
  | .primitive kind => [kind.letter]
  | .object name => 'L' :: (name.toList ++ [';'])
  | .array component => '[' :: component.chars

/-- The written form of a field type. -/
def descriptor (t : FieldType) : String := String.ofList t.chars

def dimensions : FieldType → Nat
  | .array component => component.dimensions + 1
  | _ => 0

/-- What remains of a type once all array dimensions are taken off. -/
def element : FieldType → FieldType
  | .array component => component.element
  | t => t

end FieldType

namespace MethodType

def resultChars : Option FieldType → List Char
  | none => ['V']
  | some t => t.chars

def chars (t : MethodType) : List Char :=
  '(' :: (t.parameters.flatMap FieldType.chars ++ ')' :: resultChars t.result)

/-- The written form of a method type. -/
def descriptor (t : MethodType) : String := String.ofList t.chars

end MethodType

inductive DescriptorError where
  | malformed
  | unknownPrimitive (letter : Char)
  deriving DecidableEq

/-- The message for a descriptor that was refused. -/
def DescriptorError.message (descriptor : String) : DescriptorError → String
  | .malformed => s!"Invalid method descriptor: {descriptor}"
  | .unknownPrimitive letter => s!"Invalid base type code {letter}"

namespace Descriptor

/-- An array type has at most this many dimensions. -/
def maxDimensions : Nat := 255

/-- Characters that no class name inside a descriptor contains. -/
def reserved : List Char := ['.', '[', '(', ')', '<', '>']

/-- A class name up to its closing semicolon, and the characters behind that. -/
def className? : List Char → Option (List Char × List Char)
  | [] => none
  | ';' :: rest => some ([], rest)
  | c :: rest =>
    if c ∈ reserved then none
    else (className? rest).map fun (name, rest) => (c :: name, rest)

/-- A class name is a sequence of nonempty segments with a slash between neighbours. -/
def segmented : List Char → Bool
  | [] => false
  | [c] => c != '/'
  | c :: d :: rest => c != '/' && (if d = '/' then segmented rest else segmented (d :: rest))

/-- Reads one field type with at most the given number of dimensions. -/
def fieldType (dimensions : Nat) :
    List Char → Except DescriptorError (FieldType × List Char)
  | [] => .error .malformed
  | 'L' :: rest =>
    match className? rest with
    | some (name, rest) =>
      if segmented name then .ok (.object (String.ofList name), rest) else .error .malformed
    | none => .error .malformed
  | '[' :: rest =>
    match dimensions with
    | 0 => .error .malformed
    | n + 1 =>
      match fieldType n rest with
      | .ok (t, rest) => .ok (.array t, rest)
      | .error e => .error e
  | c :: rest =>
    match Primitive.ofLetter? c with
    | some kind => .ok (.primitive kind, rest)
    | none => .error (.unknownPrimitive c)

theorem className?_length {cs name rest : List Char} (h : className? cs = some (name, rest)) :
    rest.length < cs.length := by
  fun_induction className? cs generalizing name with
  | case1 => simp at h
  | case2 r => simp_all
  | case3 => simp at h
  | case4 c r _ _ ih =>
    obtain ⟨⟨n, s⟩, hs, he⟩ := Option.map_eq_some_iff.1 h
    simp only [Prod.mk.injEq] at he
    have := ih (he.2 ▸ hs)
    simp only [List.length_cons]
    omega

theorem fieldType_length {d : Nat} {cs rest : List Char} {t : FieldType}
    (h : fieldType d cs = .ok (t, rest)) : rest.length < cs.length := by
  fun_induction fieldType d cs generalizing t with
  | case1 => simp at h
  | case2 _ r name s hn _ =>
    have := className?_length hn
    simp_all only [Except.ok.injEq, Prod.mk.injEq, List.length_cons]
    omega
  | case3 => simp at h
  | case4 => simp at h
  | case5 => simp at h
  | case6 r n t' s hs ih =>
    simp only [Except.ok.injEq, Prod.mk.injEq] at h
    have := ih (h.2 ▸ hs)
    simp only [List.length_cons]
    omega
  | case7 => simp at h
  | case8 => simp_all
  | case9 => simp at h

/-- Reads field types up to the closing parenthesis. -/
def parameters (cs : List Char) : Except DescriptorError (List FieldType × List Char) :=
  match cs with
  | [] => .error .malformed
  | ')' :: rest => .ok ([], rest)
  | c :: cs =>
    match _h : fieldType maxDimensions (c :: cs) with
    | .error e => .error e
    | .ok (t, rest) =>
      match parameters rest with
      | .error e => .error e
      | .ok (ts, rest) => .ok (t :: ts, rest)
termination_by cs.length
decreasing_by exact fieldType_length ‹_›

/-- Reads a whole text as one field type. -/
def wholeType (cs : List Char) : Except DescriptorError FieldType :=
  match fieldType maxDimensions cs with
  | .ok (t, []) => .ok t
  | .ok _ => .error .malformed
  | .error e => .error e

def result : List Char → Except DescriptorError (Option FieldType)
  | ['V'] => .ok none
  | 'V' :: _ => .error .malformed
  | cs => (wholeType cs).map some

end Descriptor

def FieldType.ofDescriptor (descriptor : String) : Except DescriptorError FieldType :=
  Descriptor.wholeType descriptor.toList

def MethodType.ofDescriptor (descriptor : String) : Except DescriptorError MethodType :=
  match descriptor.toList with
  | '(' :: cs => do
    let (parameters, rest) ← Descriptor.parameters cs
    let result ← Descriptor.result rest
    return ⟨parameters, result⟩
  | _ => .error .malformed

end ClassVerifier
