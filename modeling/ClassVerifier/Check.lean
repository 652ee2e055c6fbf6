import ClassVerifier.Frame

/-! A check as a tree of the questions it asks about classes. What the answers are, and whether they
are remembered, is up to the handler of the tree; `run` is the handler that remembers nothing. -/
namespace ClassVerifier

/-- A check ends with a value or a fault, asks about a class and goes on with the answer, or notes
the frame and opcode of an instruction that it is about to apply. -/
inductive Check (α : Type) where
  | done (value : α)
  | stop (fault : Fault)
  | ask (name : String) (next : Option ClassInfo → Check α)
  | note (frame : Frame) (opcode : UInt8) (next : Unit → Check α)

namespace Check
variable {α β : Type}

protected def bind : Check α → (α → Check β) → Check β
  | done value, f => f value
  | stop fault, _ => stop fault
  | ask name next, f => ask name fun info => (next info).bind f
  | note frame opcode next, f => note frame opcode fun u => (next u).bind f

instance : Monad Check where
  pure := done
  bind := Check.bind

def reject (cause : Cause) : Check α := stop (.rejected none cause)

def crash (message : String) : Check α := stop (.crashed message)

def ofExcept : Except Cause α → Check α
  | .ok value => done value
  | .error cause => reject cause

instance : MonadLift (Except Cause) Check := ⟨ofExcept⟩

def ofOption (cause : Cause) : Option α → Check α
  | some value => done value
  | none => reject cause

def require (condition : Bool) (cause : Cause) : Check Unit :=
  if condition then done () else reject cause

/-- Says of a cause that it was found at this offset. -/
def located (offset : Nat) : Check α → Check α
  | done value => done value
  | stop (.rejected _ cause) => stop (.rejected (some offset) cause)
  | stop (.crashed message) => stop (.crashed message)
  | ask name next => ask name fun info => (next info).located offset
  | note frame opcode next => note frame opcode fun u => (next u).located offset

/-- Answers every question by asking the resolver anew. -/
def run (resolver : Resolver) : Check α → Except Fault α
  | done value => .ok value
  | stop fault => .error fault
  | ask name next =>
    match resolver name with
    | .known info => (next (some info)).run resolver
    | .unknown => (next none).run resolver
    | .broken message => .error (.crashed message)
  | note _ _ next => (next ()).run resolver

/-- The frames and opcodes noted along the way, in order. -/
def notes (resolver : Resolver) : Check α → List (Frame × UInt8)
  | done _ | stop _ => []
  | ask name next =>
    match resolver name with
    | .known info => (next (some info)).notes resolver
    | .unknown => (next none).notes resolver
    | .broken _ => []
  | note frame opcode next => (frame, opcode) :: (next ()).notes resolver

end Check

/-- The resolver for the checks of one class: it knows that class from its own model. -/
def Resolver.within (resolver : Resolver) (c : ClassModel) : Resolver := fun name =>
  if name = c.name then .known c.info else resolver name

end ClassVerifier
