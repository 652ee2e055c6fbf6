import ClassVerifier.Check

/-! Which values may stand where a type is expected. Classes are compared by their chain of
superclasses; interfaces accept every object. -/
namespace ClassVerifier

namespace ClassName

/-- Asks about a class that has to be known. -/
def describe (name : String) : Check ClassInfo :=
  .ask name fun
    | some info => .done info
    | none => .reject (.unresolvedClass name)

/-- A chain of superclasses is followed for this many names. -/
def depthLimit : Nat := 1024

/-- Looks for the target among the next names of the chain that began at `start`. -/
def ascend (start target : String) : Nat → String → Check Bool
  | 0, _ => .reject (.hierarchyDepthLimitReached start)
  | n + 1, name =>
    if name = target then return true
    else do
      match (← describe name).superclass with
      | some superclass => ascend start target n superclass
      | none => return false

/-- Whether the target is the named class or one of its superclasses. -/
def isSubclassOf (name target : String) : Check Bool := ascend name target depthLimit name

/-- The component descriptor belongs to a reference type. -/
def hasReferenceComponent (name : List Char) : Bool :=
  componentLetter? name = some 'L' || componentLetter? name = some '['

/-- Whether a reference of the second name may stand where the first one is expected. -/
def accepts (target source : List Char) : Check Bool :=
  if target = source then return true
  else if isObject target then
    let name := String.ofList target
    if name = object then return true
    else do
      if (← describe name).isInterface then
        return !isArray source || name = cloneable || name = serializable
      else if isObject source then isSubclassOf (String.ofList source) name
      else return false
  else if isArray target && isArray source then
    if hasReferenceComponent target && hasReferenceComponent source then
      match _h : component? target, component? source with
      | some t, some s => accepts t s
      | _, _ => return false
    else return false
  else return false
termination_by target.length
decreasing_by exact component?_length ‹_›

end ClassName

/-- Whether a slot of the second type may stand where the first one is expected. -/
def SlotType.accepts (target source : SlotType) : Check Bool :=
  if target = source || target = .bogus then return true
  else
    match target, source with
    | .anySingle, _ => return source.isSingle
    | .anyDouble, _ => return source.isFirst
    | .anyReference, _ => return source.isReference || source.isUninitialized
    | .reference _, .null => return true
    | .reference name, .reference other => ClassName.accepts name.toList other.toList
    | _, _ => return false

end ClassVerifier
