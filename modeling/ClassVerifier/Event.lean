import ClassVerifier.Frame
import ClassVerifier.Hex

/-! What happens while classes are read and verified, as a log tells it. -/
namespace ClassVerifier

inductive LogLevel where
  | info | debug | trace
  deriving DecidableEq

namespace LogLevel

def name : LogLevel → String
  | info => "info"
  | debug => "debug"
  | trace => "trace"

def rank : LogLevel → Nat
  | info => 1
  | debug => 2
  | trace => 3

end LogLevel

inductive Event where
  | classRead (className : String) (methods : Nat)
  | bootstrapSkipped (className : String)
  | classStarted (className : String)
  | classFinished (className : String) (errors : Nat)
  | noStackMaps (className : String) (version : Nat)
  | failedOver (className : String)
  | methodSkipped (className method : String)
  | methodStarted (className method : String)
  | instruction (frame : Frame) (opcode : UInt8)
  deriving DecidableEq

namespace Event

def level : Event → LogLevel
  | classStarted _ | classFinished .. | noStackMaps .. | failedOver _ => .info
  | classRead .. | bootstrapSkipped _ | methodSkipped .. | methodStarted .. => .debug
  | instruction .. => .trace

def message : Event → String
  | classRead className methods => s!"Read class {className} with {methods} method(s)"
  | bootstrapSkipped className => s!"Skipping bootstrap class {className}"
  | classStarted className => s!"Start class verification for {className}"
  | classFinished className errors =>
    s!"End class verification for {className} with {errors} error(s)"
  | noStackMaps className version =>
    s!"Class {className} version {version} has no stack maps, using the legacy verifier"
  | failedOver className =>
    s!"Fail over class verification to the legacy verifier for {className}"
  | methodSkipped className method => s!"Skipping method {className}.{method}"
  | methodStarted className method => s!"Verifying method {className}.{method}"
  | instruction frame opcode => frame.text ++ " opcode: 0x" ++ Hex.text opcode

/-- The line of a log. -/
def line (e : Event) : String := e.level.name ++ " " ++ e.message

end Event
end ClassVerifier
