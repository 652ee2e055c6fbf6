import ClassVerifier.ClassFile.Table

/-! Reading a method body from the bytes of its attribute. The attributes inside are taken by the
lengths that they declare. -/
namespace ClassVerifier.CodeAttribute

inductive Defect where
  | truncated
  /-- The name of an attribute inside is not text. -/
  | unnamed
  deriving DecidableEq

abbrev BodyReader := Reader Defect

private def word : BodyReader UInt16 := Reader.word .truncated
private def long : BodyReader Nat := Reader.long .truncated
private def take (count : Nat) : BodyReader (List UInt8) := Reader.take .truncated count

/-- What an attribute says about the body that it stands in: the last stack map counts, and the
tables of local variables are put together. -/
def describe (name : String) (payload : List UInt8) (c : Code) : Except Defect Code :=
  match name with
  | "StackMapTable" => .ok { c with stackMap := some payload }
  | "LocalVariableTable" => do
    let (entries, _) ← Reader.table .truncated (LocalVariable.entry .truncated) payload
    return { c with localVariables := c.localVariables ++ entries }
  | _ => .ok c

/-- The attributes inside, in order. -/
def attributes (pool : ConstantPool) : Nat → Code → BodyReader Code
  | 0, c => return c
  | n + 1, c => do
    let index ← word
    let payload ← take (← long)
    match pool.utf8 index with
    | .error _ => Reader.fail .unnamed
    | .ok name =>
      match describe name payload c with
      | .ok c => attributes pool n c
      | .error d => Reader.fail d

/-- The content of the attribute, behind its name and length. -/
def content (pool : ConstantPool) : BodyReader Code := do
  let maxStack ← word
  let maxLocals ← word
  let bytes ← take (← long)
  let handlers ← Reader.table .truncated (Handler.entry .truncated)
  let count ← word
  attributes pool count.toNat { maxStack, maxLocals, bytes := bytes.toArray, handlers }

/-- The whole attribute; neither its name nor its length is looked at. -/
def whole (pool : ConstantPool) : BodyReader Code := do
  let _ ← word
  let _ ← long
  content pool

/-- The body that an attribute holds. -/
def decode (pool : ConstantPool) (bytes : List UInt8) : Except Defect Code :=
  (·.1) <$> whole pool bytes

end ClassVerifier.CodeAttribute
