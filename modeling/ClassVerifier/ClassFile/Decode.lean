import ClassVerifier.ClassFile
import ClassVerifier.ClassFile.Annotations
import ClassVerifier.ClassFile.ModifiedUtf8
import ClassVerifier.ClassFile.Position
import ClassVerifier.ClassFile.Relocatable
import ClassVerifier.Descriptor

/-! Taking the bytes of a class file apart. Tables are read by their own counts; the length that an
attribute declares counts where its layout leaves no choice or its content is not looked at. -/
namespace ClassVerifier.ClassFile

open ClassFile.Parser

def constant : Parser Constant := do
  match ← byte with
  | 1 => return .utf8 (← ofOption (ModifiedUtf8.text? (← take (← word).toNat)))
  | 3 => skip 4; return .integer
  | 4 => skip 4; return .float
  | 5 => skip 8; return .long
  | 6 => skip 8; return .double
  | 7 => return .classRef (← word)
  | 8 => return .string (← word)
  | 9 => return .fieldRef (← word) (← word)
  | 10 => return .methodRef (← word) (← word)
  | 11 => return .interfaceMethodRef (← word) (← word)
  | 12 => return .nameAndType (← word) (← word)
  | 15 =>
    let kind ← byte
    require (1 ≤ kind && kind ≤ 9)
    return .methodHandle kind (← word)
  | 16 => return .methodType (← word)
  | 17 => return .dynamic (← word) (← word)
  | 18 => return .invokeDynamic (← word) (← word)
  | 19 => return .moduleRef (← word)
  | 20 => return .packageRef (← word)
  | _ => fail

/-- Reads constants until no index is left; an eight-byte one may take one index more. -/
def constants (left : Nat) (before : ConstantPool) : Parser ConstantPool := fun bytes =>
  match left with
  | 0 => .ok (before, bytes)
  | n + 1 =>
    match constant bytes with
    | .ok (c, rest) => constants (if c.isWide then n - 1 else n) (before.push c) rest
    | .error e => .error e
termination_by left
decreasing_by split <;> omega

/-- How many bytes a type in a recorded frame takes. -/
def slotTypeSize : Parser Nat := do
  let tag ← byte
  if tag ≤ 6 then return 1
  else if tag ≤ 8 then
    skip 2
    return 3
  else fail

/-- How many bytes the entries of a table take if each of them tells its size. -/
def tableSize (entrySize : Parser Nat) : Parser Nat := do
  return (← table entrySize).foldl (· + ·) 2

/-- How many bytes a recorded frame takes. -/
def frameSize : Parser Nat := do
  let kind ← byte
  if kind < 64 then return 1
  else if kind < 128 then return 1 + (← slotTypeSize)
  else if kind < 247 then fail
  else
    skip 2
    if kind = 247 then return 3 + (← slotTypeSize)
    else if kind < 252 then return 3
    else if kind < 255 then
      return (← Reader.times (kind.toNat - 251) slotTypeSize).foldl (· + ·) 3
    else return 3 + (← tableSize slotTypeSize) + (← tableSize slotTypeSize)

/-- The recorded frames as they are written; all of them have to be laid out as frames. -/
def stackMap : Parser (List UInt8) := do
  take (← Reader.ahead (tableSize frameSize))

/-- A method body. Its instructions are put one behind the other anew, its handlers are counted in
instructions and back, and the last stack map counts. It can be written if its branches are in reach
and all attributes in it can be. -/
def body (nested : Parser Attribute) : Parser Attribute := do
  let maxStack ← word
  let maxLocals ← word
  let code := (← take (← long)).toArray
  let instructions ← ofOption (Relocatable.readAll? code 0)
  let moved := Relocatable.moved code.size instructions
  let bytes ← ofOption (Relocatable.code? moved (instructions.map (·.2)))
  let entries ← table (Handler.entry {})
  let entries ← ofOption (entries.mapM (·.indexed? (instructions.map (·.1))))
  let attributes ← table nested
  require (attributes.all fun a => a.lineStarts.all fun b => (moved.to? b.toNat).isSome)
  let c : Code := {
    maxStack
    maxLocals
    bytes
    handlers := IndexedHandler.handlers bytes entries
    localVariables := attributes.flatMap (·.localEntries)
    stackMap := (attributes.filterMap (·.stackMap?)).getLast? }
  return .code c (Relocatable.allInReach moved instructions && attributes.all (·.isWritable))

/-- The components of a record. They can be written if all attributes in them can be. -/
def components (nested : Parser Attribute) : Parser Attribute := do
  let tables ← table do
    skip 4
    table nested
  return .other (tables.all (·.all (·.isWritable)))

/-- Passes over what an attribute that is not looked at holds. -/
def skipContent (depth length : Nat) : String → Parser Unit
  | "Deprecated" | "Synthetic" => require (length == 0)
  | "ConstantValue" | "Signature" | "SourceFile" | "ModuleMainClass" | "NestHost" => do
    require (length == 2)
    skip 2
  | "EnclosingMethod" => do
    require (length == 4)
    skip 4
  | "Exceptions" | "ModulePackages" | "NestMembers" | "PermittedSubclasses" => skipTable (skip 2)
  | "InnerClasses" => skipTable (skip 8)
  | "LocalVariableTypeTable" => skipTable (skip 10)
  | "MethodParameters" => skipShortTable (skip 4)
  | "BootstrapMethods" => skipTable (do skip 2; skipTable (skip 2))
  | "Module" => do
    skip 6
    skipTable (skip 6)
    skipTable (do skip 4; skipTable (skip 2))
    skipTable (do skip 4; skipTable (skip 2))
    skipTable (skip 2)
    skipTable (do skip 2; skipTable (skip 2))
  | "SourceDebugExtension" => do require (ModifiedUtf8.text? (← take length)).isSome
  | "AnnotationDefault" => elementValue depth
  | "RuntimeVisibleAnnotations" | "RuntimeInvisibleAnnotations" =>
    skipTable (annotationWithin depth)
  | "RuntimeVisibleParameterAnnotations" | "RuntimeInvisibleParameterAnnotations" =>
    skipShortTable (skipTable (annotationWithin depth))
  | "RuntimeVisibleTypeAnnotations" | "RuntimeInvisibleTypeAnnotations" =>
    skipTable (typeAnnotationWithin depth)
  | _ => skip length

/-- An attribute inside which attributes stand less than `depth` deep. -/
def attributeWithin (pool : ConstantPool) : Nat → Parser Attribute
  | 0 => fail
  | depth + 1 => do
    let name ← ofOption (pool.utf8 (← word)).toOption
    let length ← long
    let nested := attributeWithin pool depth
    match name with
    | "Code" => body nested
    | "Record" => components nested
    | "StackMapTable" =>
      let _ ← Reader.ahead (take length)
      return .stackMap (← stackMap)
    | "LocalVariableTable" => return .localVariables (← table (LocalVariable.entry {}))
    | "LineNumberTable" =>
      return .lineNumbers (← table do
        let start ← word
        skip 2
        return start)
    | _ =>
      skipContent depth length name
      return .other true

/-- The descriptor of a field is read as far as is needed to tell the kind of its type, and that a
class has a name. -/
def isFieldDescriptor : List Char → Bool
  | '[' :: component => isFieldDescriptor component
  | 'L' :: name => 2 ≤ name.length && name.getLast? == some ';'
  | letter :: _ => (Primitive.ofLetter? letter).isSome
  | [] => false

def method (pool : ConstantPool) (depth : Nat) : Parser Member := do
  return ⟨(← word) &&& Method.knownAccess, ← word, ← word, ← table (attributeWithin pool depth)⟩

def field (pool : ConstantPool) (depth : Nat) : Parser Member := do
  let access ← word
  let name ← word
  let descriptor ← word
  let text ← ofOption (pool.utf8 descriptor).toOption
  require (isFieldDescriptor text.toList)
  return ⟨access, name, descriptor, ← table (attributeWithin pool depth)⟩

/-- Versions from this one on have a minor version with a meaning. -/
def previewVersion : UInt16 := 56

def isKnownVersion (major minor : UInt16) : Bool :=
  45 ≤ major && major ≤ 68 && (major < previewVersion || minor == 0 || minor == 0xffff)

/-- A class file, whatever follows it. Attributes cannot stand deeper in each other than there are
bytes. -/
def classFile : Parser ClassFile := fun bytes =>
  let depth := bytes.length
  let parser : Parser ClassFile := do
    require ((← long) == 0xcafebabe)
    let minor ← word
    let version ← word
    require (isKnownVersion version minor)
    let pool ← constants ((← word).toNat - 1) {}
    let access ← word
    let name ← word
    let superclass ← word
    let interfaces ← table word
    let fields ← table (field pool depth)
    let methods ← table (method pool depth)
    let _ ← table (attributeWithin pool depth)
    return {
      version, pool, name, superclass, interfaces, fields, methods
      access := access &&& ClassModel.knownAccess }
  parser bytes

/-- The class file that the bytes begin with. -/
def ofBytes (bytes : List UInt8) : Except Malformed ClassFile := (·.1) <$> classFile bytes

end ClassVerifier.ClassFile
