import ClassVerifier.ClassFile.Table

/-! Reading class files. Of bytes that are not laid out as a class file nothing more is said. -/
namespace ClassVerifier.ClassFile

/-- The bytes are not laid out as a class file. -/
structure Malformed where
  deriving DecidableEq

abbrev Parser := Reader Malformed

namespace Parser
variable {α : Type}

def fail : Parser α := Reader.fail {}
def byte : Parser UInt8 := Reader.byte {}
def word : Parser UInt16 := Reader.word {}
def long : Parser Nat := Reader.long {}
def take (count : Nat) : Parser (List UInt8) := Reader.take {} count

/-- A count of two bytes and that many entries. -/
def table (entry : Parser α) : Parser (List α) := Reader.table {} entry

/-- A count of one byte and that many entries. -/
def shortTable (entry : Parser α) : Parser (List α) := do
  Reader.times (← byte).toNat entry

/-- Passes over the next bytes. -/
def skip (count : Nat) : Parser Unit := do
  let _ ← take count

/-- Passes over a table. -/
def skipTable (entry : Parser Unit) : Parser Unit := do
  let _ ← table entry

/-- Passes over a table with a count of one byte. -/
def skipShortTable (entry : Parser Unit) : Parser Unit := do
  let _ ← shortTable entry

def require (condition : Bool) : Parser Unit := if condition then return () else fail

def ofOption : Option α → Parser α
  | some value => return value
  | none => fail

end Parser
end ClassVerifier.ClassFile
