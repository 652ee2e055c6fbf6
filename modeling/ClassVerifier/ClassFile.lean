import ClassVerifier.Model

/-! A class file once its bytes have been taken apart. Pool indices are kept as they stand, and
nothing says that they lead to anything. -/
namespace ClassVerifier

/-- The attributes that later steps look at; all others are `other`. An attribute with a body in it
may be one that can be read and cannot be written. -/
inductive Attribute where
  | code (body : Code) (writable : Bool)
  | stackMap (payload : List UInt8)
  | localVariables (entries : List LocalVariable)
  /-- The offsets at which source lines start. -/
  | lineNumbers (starts : List UInt16)
  | other (writable : Bool)
  deriving DecidableEq

namespace Attribute

def isWritable : Attribute → Bool
  | code _ writable => writable
  | other writable => writable
  | _ => true

def code? : Attribute → Option Code
  | code body _ => some body
  | _ => none

def stackMap? : Attribute → Option (List UInt8)
  | stackMap payload => some payload
  | _ => none

def localEntries : Attribute → List LocalVariable
  | localVariables entries => entries
  | _ => []

def lineStarts : Attribute → List UInt16
  | lineNumbers starts => starts
  | _ => []

end Attribute

/-- A field or method. -/
structure Member where
  access : UInt16
  name : UInt16
  descriptor : UInt16
  attributes : List Attribute
  deriving DecidableEq

/-- A class file; a superclass index of zero stands for no superclass. -/
structure ClassFile where
  version : UInt16
  pool : ConstantPool
  access : UInt16
  name : UInt16
  superclass : UInt16
  interfaces : List UInt16
  fields : List Member
  methods : List Member
  deriving DecidableEq

end ClassVerifier
