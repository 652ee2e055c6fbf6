import ClassVerifier.Descriptor

/-! The types of local variables and operand stack slots. A long or double takes two slots, and its
second slot has a type of its own. The name of an array is its descriptor. -/
namespace ClassVerifier

inductive SlotType where
  /-- No value: the result of a void method, and as an expectation it accepts anything. -/
  | bogus
  /-- An unusable slot. -/
  | top
  | integer
  | float
  | long
  | longSecond
  | double
  | doubleSecond
  | null
  /-- A class or interface by name, or an array by its descriptor. -/
  | reference (name : String)
  /-- What the allocation at this offset created, before its constructor ran. -/
  | uninitialized (offset : Nat)
  /-- The receiver of a constructor that has not called another constructor yet. -/
  | uninitializedThis
  /-- Expects any value of one slot. -/
  | anySingle
  /-- Expects the first slot of a long or double. -/
  | anyDouble
  /-- Expects any reference, initialized or not. -/
  | anyReference
  deriving DecidableEq

namespace ClassName

def object : String := "java/lang/Object"
def cloneable : String := "java/lang/Cloneable"
def serializable : String := "java/io/Serializable"
def throwable : String := "java/lang/Throwable"

/-- No array name: it does not start with a bracket. -/
def isObject (name : List Char) : Bool :=
  match name with
  | '[' :: _ => false
  | _ => true

def isArray (name : List Char) : Bool :=
  match name with
  | '[' :: _ :: _ => true
  | _ => false

/-- The first character of an array's component descriptor. -/
def componentLetter? (name : List Char) : Option Char :=
  match name with
  | '[' :: c :: _ => some c
  | _ => none

/-- The name between the letter and the closing semicolon of a class descriptor. -/
def unwrap? (descriptor : List Char) : Option (List Char) :=
  match descriptor with
  | 'L' :: name => if name.getLast? = some ';' then some name.dropLast else none
  | _ => none

/-- The component's name, for arrays of references. -/
def component? (name : List Char) : Option (List Char) :=
  match name with
  | '[' :: '[' :: rest => some ('[' :: rest)
  | '[' :: rest => unwrap? rest
  | _ => none

theorem component?_length {name component : List Char} (h : component? name = some component) :
    component.length < name.length := by
  unfold component? at h
  split at h
  · simp_all only [Option.some.injEq]
    rw [← h]
    simp
  · next rest _ =>
    unfold unwrap? at h
    split at h
    · split at h
      · simp only [Option.some.injEq] at h
        rw [← h]
        simp only [List.length_dropLast, List.length_cons]
        omega
      · simp at h
    · simp at h
  · simp at h

end ClassName

namespace SlotType

/-- The type of a value's first slot. -/
def ofFieldType : FieldType → SlotType
  | .primitive .long => .long
  | .primitive .double => .double
  | .primitive .float => .float
  | .primitive _ => .integer
  | .object name => .reference name
  | .array component => .reference (FieldType.array component).descriptor

/-- The type of the slot behind the first slot of a long or double. -/
def second? : SlotType → Option SlotType
  | long => some longSecond
  | double => some doubleSecond
  | _ => none

/-- Every slot that a value with this first slot takes. -/
def slots (t : SlotType) : List SlotType := t :: t.second?.toList

def slotsOf (t : FieldType) : List SlotType := (ofFieldType t).slots

/-- Null and initialized references. -/
def isReference : SlotType → Bool
  | null | reference _ => true
  | _ => false

def isUninitialized : SlotType → Bool
  | uninitialized _ | uninitializedThis => true
  | _ => false

/-- A value of one slot. -/
def isSingle : SlotType → Bool
  | top | integer | float | null | reference _ | uninitialized _ | uninitializedThis => true
  | _ => false

/-- The first slot of a long or double. -/
def isFirst : SlotType → Bool
  | long | double => true
  | _ => false

/-- The second slot of a long or double. -/
def isSecond : SlotType → Bool
  | longSecond | doubleSecond => true
  | _ => false

def name? : SlotType → Option String
  | reference name => some name
  | _ => none

def isObject : SlotType → Bool
  | reference name => ClassName.isObject name.toList
  | _ => false

def isArray : SlotType → Bool
  | reference name => ClassName.isArray name.toList
  | _ => false

/-- Null, or an array whose component descriptor starts with the letter. -/
def isArrayOf (letter : Char) : SlotType → Bool
  | null => true
  | reference name => ClassName.componentLetter? name.toList = some letter
  | _ => false

/-- Null, or an array of references. -/
def isReferenceArray (t : SlotType) : Bool := t.isArrayOf 'L' || t.isArrayOf '['

/-- The number of array dimensions. -/
def dimensions : SlotType → Nat
  | reference name => (name.toList.takeWhile (· = '[')).length
  | _ => 0

/-- The first slot of an array's elements. -/
def component? : SlotType → Option SlotType
  | reference name =>
    match ClassName.componentLetter? name.toList with
    | some 'J' => some long
    | some 'D' => some double
    | some 'F' => some float
    | some 'Z' | some 'B' | some 'C' | some 'S' | some 'I' => some integer
    | _ => (ClassName.component? name.toList).map fun cs => reference (String.ofList cs)
  | _ => none

/-- The offset of the allocation of an object that is not initialized. -/
def allocation? : SlotType → Option Nat
  | uninitialized offset => some offset
  | _ => none

def text : SlotType → String
  | bogus => "bogus"
  | top => "top"
  | integer => "integer"
  | float => "float"
  | long => "long"
  | longSecond => "long_2nd"
  | double => "double"
  | doubleSecond => "double_2nd"
  | null => "null"
  | reference name => s!"'{name}'"
  | uninitialized offset => s!"uninitialized({offset})"
  | uninitializedThis => "uninitializedThis"
  | anySingle => "category1_check"
  | anyDouble => "category2_check"
  | anyReference => "reference_check"

end SlotType
end ClassVerifier
