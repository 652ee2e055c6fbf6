import ClassVerifier.Event
import ClassVerifier.Walk

/-! Verification of a whole class. Answers about other classes are remembered while one class is
verified, and classes without recorded frames go to another verifier. -/
namespace ClassVerifier

/-- What becomes of a class of the last version that may lack recorded frames, if it fails. -/
inductive Failover where
  | legacy | never
  deriving DecidableEq

structure Options where
  failover : Failover := .legacy
  skipBootstrap : Bool := true
  deriving DecidableEq

/-- A verifier for classes without recorded frames. -/
abbrev LegacyVerifier := ClassModel → List Failure

/-- Refuses every class. -/
def LegacyVerifier.unsupported : LegacyVerifier := fun c =>
  [{ className := c.name, cause := .inferenceNotSupported }]

/-- What has been asked and answered so far, and what has been told of it. -/
structure Session where
  /-- Events above this level are not kept. -/
  threshold : Option LogLevel := none
  events : Array Event := #[]
  asked : Array String := #[]
  answered : Std.HashMap String ClassInfo := {}
  legacyCalls : Nat := 0

namespace Session

def record (s : Session) (e : Event) : Session :=
  match s.threshold with
  | some level => if e.level.rank ≤ level.rank then { s with events := s.events.push e } else s
  | none => s

/-- Runs a check for a class. The class itself is never asked for, and no class is asked for again
once there was an answer. -/
def handle {α : Type} (resolver : Resolver) (c : ClassModel) :
    Check α → Session → Except Fault α × Session
  | .done value, s => (.ok value, s)
  | .stop fault, s => (.error fault, s)
  | .note frame opcode next, s => handle resolver c (next ()) (s.record (.instruction frame opcode))
  | .ask name next, s =>
    if name = c.name then handle resolver c (next (some c.info)) s
    else
      match s.answered[name]? with
      | some info => handle resolver c (next (some info)) s
      | none =>
        let s := { s with asked := s.asked.push name }
        match resolver name with
        | .known info =>
          handle resolver c (next (some info)) { s with answered := s.answered.insert name info }
        | .unknown => handle resolver c (next none) s
        | .broken message => (.error (.crashed message), s)

end Session

/-- Classes of versions below this one have no recorded frames. -/
def stackMapVersion : UInt16 := 50

/-- Classes of versions below this one may fail over. -/
def noFailoverVersion : UInt16 := 51

/-- The classes that a machine needs before it can verify anything. -/
def bootstrapClasses : List String :=
  ["java/lang/Object", "java/lang/Class", "java/lang/String", "java/lang/Throwable"]

/-- A verifier of whole classes. -/
structure Verifier where
  options : Options := {}
  legacy : LegacyVerifier := .unsupported

namespace Verifier

/-- Hands a class to the verifier for classes without recorded frames. -/
def delegate (v : Verifier) (c : ClassModel) (s : Session) : List Failure × Session :=
  (v.legacy c, { s with legacyCalls := s.legacyCalls + 1 })

/-- Verifies one method; native, abstract and bridge methods are passed over. -/
def verifyMethod (resolver : Resolver) (c : ClassModel) (m : Method) (s : Session) :
    Option Failure × Session :=
  if m.isSkipped then (none, s.record (.methodSkipped c.name m.signature))
  else
    match Session.handle resolver c (m.verify c) (s.record (.methodStarted c.name m.signature)) with
    | (.ok (), s) => (none, s)
    | (.error fault, s) => (some (fault.toFailure c.name m.signature), s)

/-- Verifies the methods in order; each one reports at most one failure. -/
def verifyMethods (resolver : Resolver) (c : ClassModel) :
    List Method → Session → List Failure × Session
  | [], s => ([], s)
  | m :: more, s =>
    let (failure, s) := verifyMethod resolver c m s
    let (failures, s) := verifyMethods resolver c more s
    (failure.toList ++ failures, s)

/-- Verifies a class that is not skipped. -/
def verifyClass (v : Verifier) (resolver : Resolver) (c : ClassModel) (s : Session) :
    List Failure × Session :=
  if c.version < stackMapVersion then
    v.delegate c (s.record (.noStackMaps c.name c.version.toNat))
  else
    let (failures, s) := verifyMethods resolver c c.methods { s with answered := {} }
    if !failures.isEmpty && c.version < noFailoverVersion && v.options.failover = .legacy then
      v.delegate c (s.record (.failedOver c.name))
    else (failures, s)

/-- Verifies a class. -/
def verify (v : Verifier) (resolver : Resolver) (c : ClassModel) (s : Session := {}) :
    List Failure × Session :=
  if v.options.skipBootstrap && c.name ∈ bootstrapClasses then
    ([], s.record (.bootstrapSkipped c.name))
  else
    let (failures, s) := v.verifyClass resolver c (s.record (.classStarted c.name))
    (failures, s.record (.classFinished c.name failures.length))

end Verifier
end ClassVerifier
