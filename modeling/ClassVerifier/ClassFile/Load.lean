import ClassVerifier.ClassFile.CodeAttribute
import ClassVerifier.ClassFile.Decode
import ClassVerifier.ClassFile.Outline
import ClassVerifier.Session

/-! Models of classes from class files. A model made from the parts of a class file has its method
bodies as those parts give them; one made from bytes takes each body from the attribute as it is
written, so that handlers keep their offsets. -/
namespace ClassVerifier

inductive LoadError where
  /-- The bytes are not a class file, an index in them leads to nothing suitable, or a body in them
  cannot be written. -/
  | malformed
  | badOutline (className : String) (defect : Outline.Defect)
  | methodCount (className : String) (expected found : Nat)
  | badCode (method : String)
  /-- Loading has broken down. -/
  | crashed (message : String)
  deriving DecidableEq

namespace LoadError

def message : LoadError → String
  | malformed => "Malformed class file"
  | badOutline className defect => s!"Invalid class file: {className}: {defect.message}"
  | methodCount className expected found =>
    s!"Invalid class file: {className}: expected {expected} methods, found {found}"
  | badCode method => s!"Invalid code attribute in method {method}"
  | crashed message => message

end LoadError

/-- A lookup that leads to nothing suitable makes a class file malformed. -/
private def found {α : Type} : Except Cause α → Except LoadError α
  | .ok value => .ok value
  | .error _ => .error .malformed

namespace Member

/-- The first attribute with a body counts. -/
def codeAttribute? (m : Member) : Option Attribute := m.attributes.find? (·.code?.isSome)

def field (pool : ConstantPool) (m : Member) : Except LoadError Field := do
  return { name := ← found (pool.utf8 m.name), descriptor := ← found (pool.utf8 m.descriptor) }

/-- The body of a method is that of its attribute as it is written anew. -/
def method (pool : ConstantPool) (m : Member) : Except LoadError Method := do
  let whole := m.codeAttribute?
  if whole.all (·.isWritable) then
    return {
      access := m.access
      name := ← found (pool.utf8 m.name)
      descriptor := ← found (pool.utf8 m.descriptor)
      code := whole.bind (·.code?) }
  else .error .malformed

end Member

/-- The body of a method as its attribute is written. -/
def Method.withCode (pool : ConstantPool) (m : Method) :
    Option (List UInt8) → Except LoadError Method
  | none => .ok m
  | some whole =>
    match CodeAttribute.decode pool whole with
    | .ok c => .ok { m with code := some c }
    | .error .truncated => .error (.badCode m.signature)
    | .error .unnamed => .error .malformed

namespace ClassModel

def ofClassFile (f : ClassFile) : Except LoadError ClassModel := do
  let className (index : UInt16) := found (f.pool.className index)
  return {
    version := f.version
    access := f.access
    name := ← className f.name
    superclass := ← if f.superclass = 0 then pure none else some <$> className f.superclass
    interfaces := ← f.interfaces.mapM className
    fields := ← f.fields.mapM (Member.field f.pool)
    methods := ← f.methods.mapM (Member.method f.pool)
    pool := f.pool }

/-- The model of the class file that the bytes begin with, made from its parts. -/
def ofParts (bytes : List UInt8) : Except LoadError ClassModel :=
  match ClassFile.ofBytes bytes with
  | .ok f => ofClassFile f
  | .error _ => .error .malformed

/-- The model of the class file that the bytes begin with, its bodies taken as they are written. -/
def ofBytes (bytes : List UInt8) : Except LoadError ClassModel := do
  let c ← ofParts bytes
  match Outline.codeAttributes c.pool bytes with
  | .error .overflow => .error (.crashed Outline.Defect.overflow.message)
  | .error defect => .error (.badOutline c.name defect)
  | .ok bodies =>
    if bodies.length ≠ c.methods.length then
      .error (.methodCount c.name c.methods.length bodies.length)
    else
      let methods ← (c.methods.zip bodies).mapM fun (m, whole) => m.withCode c.pool whole
      return { c with methods }

end ClassModel

/-- Reads a class from bytes and tells of it. -/
def Session.readClass (s : Session) (bytes : List UInt8) :
    Except LoadError (ClassModel × Session) := do
  let c ← ClassModel.ofBytes bytes
  return (c, s.record (.classRead c.name c.methods.length))

end ClassVerifier
