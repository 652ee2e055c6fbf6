import ClassVerifier.Constant
import ClassVerifier.Hierarchy

/-! The parts of a class that verification looks at. -/
namespace ClassVerifier

structure Field where
  name : String
  descriptor : String
  deriving DecidableEq

/-- An exception table entry: code from `start` up to but not including `stop` is protected, and
a catch index of zero catches everything. -/
structure Handler where
  start : UInt16
  stop : UInt16
  target : UInt16
  catchIndex : UInt16
  deriving DecidableEq

def Handler.covers (h : Handler) (offset : Nat) : Bool :=
  h.start.toNat ≤ offset && offset < h.stop.toNat

structure LocalVariable where
  start : UInt16
  length : UInt16
  name : UInt16
  descriptor : UInt16
  index : UInt16
  deriving DecidableEq

/-- A method body; the stack map is the payload of its attribute. -/
structure Code where
  maxStack : UInt16
  maxLocals : UInt16
  bytes : Array UInt8
  handlers : List Handler := []
  localVariables : List LocalVariable := []
  stackMap : Option (List UInt8) := none
  deriving DecidableEq

structure Method where
  access : UInt16
  name : String
  descriptor : String
  code : Option Code
  deriving DecidableEq

namespace Method

/-- The access flags a method can have; other bits mean nothing. -/
def knownAccess : UInt16 := 0x1dff

def signature (m : Method) : String := m.name ++ m.descriptor

def isStatic (m : Method) : Bool := m.access &&& 0x0008 != 0

/-- Native, abstract and bridge methods are not verified. -/
def isSkipped (m : Method) : Bool := m.access &&& 0x0540 != 0

def isConstructor (m : Method) : Bool := m.name == "<init>"

end Method

structure ClassModel where
  version : UInt16
  access : UInt16
  name : String
  superclass : Option String
  interfaces : List String := []
  fields : List Field := []
  methods : List Method := []
  pool : ConstantPool := {}
  deriving DecidableEq

namespace ClassModel

/-- The access flags a class can have; other bits mean nothing. -/
def knownAccess : UInt16 := 0xf631

def isInterface (c : ClassModel) : Bool := c.access &&& 0x0200 != 0

def info (c : ClassModel) : ClassInfo := ⟨c.isInterface, c.superclass⟩

def declaresField (c : ClassModel) (name descriptor : String) : Bool :=
  c.fields.any fun f => f.name == name && f.descriptor == descriptor

def findMethod? (c : ClassModel) (name descriptor : String) : Option Method :=
  c.methods.find? fun m => m.name == name && m.descriptor == descriptor

end ClassModel
end ClassVerifier
