import ClassVerifier.Instruction.Decode

/-! All instructions of a method body, in order and by offset. -/
namespace ClassVerifier

/-- The instructions of a body of `length` bytes; `starts` holds each at its own offset. -/
structure Listing where
  length : Nat
  body : List Located
  starts : Array (Option Located)
  deriving DecidableEq

namespace Listing

/-- The instructions that follow each other from `b` on, and the offset of the first place where
there is none although the code goes on. -/
def scan (code : Array UInt8) (b : Nat) (before : List Located := []) :
    List Located × Option Nat :=
  if _h : b < code.size then
    match _h : Instruction.decode? code b with
    | some i => scan code i.next (i :: before)
    | none => (before.reverse, some b)
  else (before.reverse, none)
termination_by code.size - b
decreasing_by
  have := Instruction.lt_next_of_decode? ‹_›
  omega

def place (starts : Array (Option Located)) (i : Located) : Array (Option Located) :=
  starts.setIfInBounds i.offset (some i)

/-- The listing of a body, or the offset at which no instruction can be read. -/
def ofCode (code : Array UInt8) : Except Nat Listing :=
  match scan code 0 with
  | (_, some b) => .error b
  | (body, none) =>
    .ok ⟨code.size, body, body.foldl place (Array.replicate code.size none)⟩

/-- The pool index behind the opcode of an allocation, wherever that stands in the code. -/
def newIndex? (code : Array UInt8) (b : Nat) : Option UInt16 := do
  if (← code[b]?) = 0xbb then Instruction.wordAt? code (b + 1) else none

def at? (l : Listing) (offset : Nat) : Option Located := (l.starts[offset]?).join

/-- The instruction that a branch leads to. -/
def target? (l : Listing) (target : Int) : Option Located :=
  if target < 0 then none else l.at? target.toNat

def isStart (l : Listing) (offset : Nat) : Bool := (l.at? offset).isSome

/-- The pool index of the class that the instruction at this offset allocates. -/
def allocation? (l : Listing) (offset : Nat) : Option UInt16 :=
  match l.at? offset with
  | some ⟨_, _, _, .new index⟩ => some index
  | _ => none

end Listing
end ClassVerifier
