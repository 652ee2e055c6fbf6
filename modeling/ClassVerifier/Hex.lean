/-! Two-digit lower case hexadecimal, the way opcodes are written in messages. -/
namespace ClassVerifier.Hex

/-- The digit of a value below sixteen. -/
def digit (n : Nat) : Char :=
  if n < 10 then Char.ofNat ('0'.toNat + n) else Char.ofNat ('a'.toNat + (n - 10))

def digits (b : UInt8) : List Char :=
  [digit (b.toNat / 16), digit (b.toNat % 16)]

def text (b : UInt8) : String := String.ofList (digits b)

end ClassVerifier.Hex
