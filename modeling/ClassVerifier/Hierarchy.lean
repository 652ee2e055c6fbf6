import Std.Data.HashMap

/-! What a check may learn about a class by its name, and a table of known classes that answers. -/
namespace ClassVerifier

/-- The place of a class in the hierarchy. -/
structure ClassInfo where
  isInterface : Bool
  superclass : Option String
  deriving DecidableEq

namespace ClassInfo

def subclassOf (superclass : String) : ClassInfo := ⟨false, some superclass⟩

/-- Interfaces count as subclasses of the root class. -/
def interface : ClassInfo := ⟨true, some "java/lang/Object"⟩

end ClassInfo

/-- What a resolver says about a name; a resolver may also break down. -/
inductive Answer where
  | known (info : ClassInfo)
  | unknown
  | broken (message : String)
  deriving DecidableEq

/-- Answers by class name; the same name always gets the same answer. -/
abbrev Resolver := String → Answer

/-- A table of classes by name, in which a later entry replaces an earlier one. -/
structure ClassTable where
  entries : Std.HashMap String ClassInfo := {}

namespace ClassTable

def insert (table : ClassTable) (name : String) (info : ClassInfo) : ClassTable :=
  ⟨table.entries.insert name info⟩

def find? (table : ClassTable) (name : String) : Option ClassInfo := table.entries[name]?

def empty : ClassTable := {}

/-- Two tables are the same if they know the same names and say the same about each. -/
def same (a b : ClassTable) : Bool :=
  a.entries.size == b.entries.size &&
    a.entries.toList.all fun (name, info) => b.find? name = some info

/-- The platform classes that the checks themselves refer to, with their superclasses. -/
def platformClasses : List (String × String) :=
  [("java/lang/String", "java/lang/Object"),
   ("java/lang/Class", "java/lang/Object"),
   ("java/lang/Number", "java/lang/Object"),
   ("java/lang/Integer", "java/lang/Number"),
   ("java/lang/Long", "java/lang/Number"),
   ("java/lang/StringBuilder", "java/lang/Object"),
   ("java/lang/invoke/MethodHandle", "java/lang/Object"),
   ("java/lang/invoke/MethodType", "java/lang/Object"),
   ("java/lang/Throwable", "java/lang/Object"),
   ("java/lang/Exception", "java/lang/Throwable"),
   ("java/lang/Error", "java/lang/Throwable"),
   ("java/lang/RuntimeException", "java/lang/Exception"),
   ("java/lang/IllegalStateException", "java/lang/RuntimeException"),
   ("java/lang/IllegalArgumentException", "java/lang/RuntimeException"),
   ("java/lang/NullPointerException", "java/lang/RuntimeException"),
   ("java/io/IOException", "java/lang/Exception")]

def platformInterfaces : List String :=
  ["java/lang/Cloneable", "java/io/Serializable", "java/lang/CharSequence",
   "java/lang/Comparable", "java/lang/Runnable", "java/lang/AutoCloseable"]

/-- The root class, the platform interfaces and the platform classes. -/
def platform : ClassTable :=
  let root := empty.insert "java/lang/Object" ⟨false, none⟩
  let withInterfaces := platformInterfaces.foldl (·.insert · .interface) root
  platformClasses.foldl (fun table (name, superclass) =>
    table.insert name (.subclassOf superclass)) withInterfaces

def resolver (table : ClassTable) : Resolver := fun name =>
  match table.find? name with
  | some info => .known info
  | none => .unknown

end ClassTable
end ClassVerifier
