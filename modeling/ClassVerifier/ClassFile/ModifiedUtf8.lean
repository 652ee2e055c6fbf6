/-! Text as constants hold it. The first byte of a character says how many bytes it takes, and all
further ones give their low six bits whatever their high ones are. -/
namespace ClassVerifier.ModifiedUtf8

/-- How many bytes follow the first one of a character. -/
def tailLength (first : UInt8) : Nat :=
  if first &&& 0x80 = 0 then 0
  else if first &&& 0xe0 = 0xc0 then 1
  else if first &&& 0xf0 = 0xe0 then 2
  else 3

/-- The bits of a character that its first byte gives. -/
def head (first : UInt8) : Nat :=
  match tailLength first with
  | 0 => first.toNat
  | 1 => (first &&& 0x1f).toNat
  | 2 => (first &&& 0x0f).toNat
  | _ => (first &&& 0x07).toNat

/-- The number of a character that begins with the given bits. -/
def code (head : Nat) (tail : List UInt8) : Nat :=
  tail.foldl (fun n b => n * 64 + (b &&& 0x3f).toNat) head

/-- The characters of a text whose bytes are complete; what is no character counts as NUL. -/
def chars? : List UInt8 → Option (List Char)
  | [] => some []
  | first :: rest =>
    let count := tailLength first
    let tail := rest.take count
    if tail.length < count then none
    else (chars? (rest.drop count)).map (.ofNat (code (head first) tail) :: ·)
termination_by bytes => bytes.length
decreasing_by
  simp only [List.length_drop, List.length_cons]
  omega

def text? (bytes : List UInt8) : Option String := String.ofList <$> chars? bytes

end ClassVerifier.ModifiedUtf8
