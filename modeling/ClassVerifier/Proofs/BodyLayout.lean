import ClassVerifier.ClassFile.Load
import ClassVerifier.Proofs.WholeReading
import Mathlib.Control.Monad.Basic

/-! Method bodies as they are laid out in an attribute. Reading the attribute undoes the layout,
whatever its name and declared length are, and an attribute that is cut off is refused. -/
namespace ClassVerifier
open Reader (ReadsWhole wordBytes longBytes tableBytes)

def Handler.bytes (h : Handler) : List UInt8 :=
  wordBytes h.start ++ (wordBytes h.stop ++ (wordBytes h.target ++ wordBytes h.catchIndex))

def LocalVariable.bytes (v : LocalVariable) : List UInt8 :=
  wordBytes v.start ++ (wordBytes v.length ++ (wordBytes v.name ++
    (wordBytes v.descriptor ++ wordBytes v.index)))

/-- What an attribute inside of a body holds. -/
inductive BodyContent where
  | stackMap (payload : List UInt8) (short : payload.length < 2 ^ 32)
  | localVariables (entries : List LocalVariable) (few : entries.length < 65536)
  | other (name : String) (payload : List UInt8) (short : payload.length < 2 ^ 32)
      (unlike : name ≠ "StackMapTable" ∧ name ≠ "LocalVariableTable")

namespace BodyContent

/-- The name that tells what it is. -/
def name : BodyContent → String
  | stackMap .. => "StackMapTable"
  | localVariables .. => "LocalVariableTable"
  | other name .. => name

def payload : BodyContent → List UInt8
  | stackMap payload _ => payload
  | localVariables entries _ => tableBytes LocalVariable.bytes entries
  | other _ payload .. => payload

def stackMap? : BodyContent → Option (List UInt8)
  | stackMap payload _ => some payload
  | _ => none

def entries : BodyContent → List LocalVariable
  | localVariables entries _ => entries
  | _ => []

/-- What a body becomes by it. -/
def added (content : BodyContent) (c : Code) : Code :=
  { c with
    localVariables := c.localVariables ++ content.entries
    stackMap := content.stackMap?.or c.stackMap }

end BodyContent

theorem LocalVariable.length_table (entries : List LocalVariable) :
    (tableBytes LocalVariable.bytes entries).length = 2 + entries.length * 10 := by
  have ten (v : LocalVariable) : v.bytes.length = 10 := rfl
  rw [tableBytes, List.length_append, length_flatMap_of_eq ten]
  rfl

theorem BodyContent.short_payload (content : BodyContent) : content.payload.length < 2 ^ 32 := by
  cases content with
  | stackMap payload short => exact short
  | localVariables entries few =>
    rw [payload, LocalVariable.length_table]
    omega
  | other name payload short => exact short

/-- An attribute inside of a body, with the pool index of its name. -/
structure BodyAttribute where
  index : UInt16
  content : BodyContent

namespace BodyAttribute

def layout (a : BodyAttribute) : AttributeLayout :=
  ⟨a.index, a.content.payload, a.content.short_payload⟩

/-- The index leads to the name. -/
def Named (pool : ConstantPool) (a : BodyAttribute) : Prop := pool.utf8 a.index = .ok a.content.name

end BodyAttribute

/-- A body as it is laid out. -/
structure BodyLayout where
  maxStack : UInt16
  maxLocals : UInt16
  bytes : List UInt8
  handlers : List Handler
  attributes : List BodyAttribute
  short : bytes.length < 2 ^ 32
  fewHandlers : handlers.length < 65536
  fewAttributes : attributes.length < 65536

namespace BodyLayout

/-- The bytes of the attribute behind its name and length. -/
def content (b : BodyLayout) : List UInt8 :=
  wordBytes b.maxStack ++ (wordBytes b.maxLocals ++ (longBytes b.bytes.length ++ (b.bytes ++
    (tableBytes Handler.bytes b.handlers ++
      tableBytes (fun a => a.layout.bytes) b.attributes))))

/-- The complete bytes, with any name and any length in front. -/
def whole (b : BodyLayout) (name : UInt16) (declared : UInt32) : List UInt8 :=
  wordBytes name ++ (longBytes declared.toNat ++ b.content)

/-- The body that is laid out. Tables of local variables are put together, and the last stack map
counts. -/
def code (b : BodyLayout) : Code where
  maxStack := b.maxStack
  maxLocals := b.maxLocals
  bytes := b.bytes.toArray
  handlers := b.handlers
  localVariables := b.attributes.flatMap (·.content.entries)
  stackMap := (b.attributes.filterMap (·.content.stackMap?)).getLast?

end BodyLayout

namespace CodeAttribute
variable {pool : ConstantPool}

/-- The bytes are at an end. -/
private def IsEnd (d : Defect) : Prop := d = .truncated

private theorem truncated_isEnd : IsEnd .truncated := rfl

private theorem reads_handler (h : Handler) :
    ReadsWhole IsEnd (Handler.entry .truncated) h.bytes h :=
  .bind (.word truncated_isEnd _) (.bind (.word truncated_isEnd _) (.bind (.word truncated_isEnd _)
    (.bind_last (.word truncated_isEnd _) (.pure h))))

private theorem reads_localVariable (v : LocalVariable) :
    ReadsWhole IsEnd (LocalVariable.entry .truncated) v.bytes v :=
  .bind (.word truncated_isEnd _) (.bind (.word truncated_isEnd _) (.bind (.word truncated_isEnd _)
    (.bind (.word truncated_isEnd _) (.bind_last (.word truncated_isEnd _) (.pure v)))))

private theorem reads_localVariables {entries : List LocalVariable}
    (few : entries.length < 65536) :
    ReadsWhole IsEnd (Reader.table .truncated (LocalVariable.entry .truncated))
      (tableBytes LocalVariable.bytes entries) entries := by
  have table : ReadsWhole IsEnd (Reader.table .truncated (LocalVariable.entry .truncated))
      (tableBytes LocalVariable.bytes entries) (entries.map fun v => v) :=
    .table truncated_isEnd few fun v _ => reads_localVariable v
  rwa [List.map_id'] at table

theorem describe_content (content : BodyContent) (c : Code) :
    describe content.name content.payload c = .ok (content.added c) := by
  cases content with
  | stackMap payload short =>
    change _ = Except.ok
      { c with localVariables := c.localVariables ++ [], stackMap := some payload }
    rw [List.append_nil]
    rfl
  | localVariables entries few =>
    have read := (reads_localVariables few).reads []
    rw [List.append_nil] at read
    change Except.bind (Reader.table Defect.truncated (LocalVariable.entry .truncated)
      (tableBytes LocalVariable.bytes entries)) _ = _
    rw [read]
    rfl
  | other name payload short unlike =>
    change describe name payload c = .ok { c with localVariables := c.localVariables ++ [] }
    rw [List.append_nil, describe]
    · exact unlike.1
    · exact unlike.2

private theorem reads_attributes {attributes : List BodyAttribute}
    (named : ∀ a ∈ attributes, a.Named pool) (c : Code) :
    ReadsWhole IsEnd (CodeAttribute.attributes pool attributes.length c)
      (attributes.flatMap fun a => a.layout.bytes)
      (attributes.foldl (fun c a => a.content.added c) c) := by
  induction attributes generalizing c with
  | nil => exact .pure c
  | cons a attributes ih =>
    obtain ⟨first, others⟩ := List.forall_mem_cons.1 named
    rw [List.flatMap_cons, AttributeLayout.bytes, List.append_assoc, List.append_assoc]
    refine .bind (.word truncated_isEnd _) (.bind (.long truncated_isEnd a.layout.short)
      (.bind (.take truncated_isEnd _) ?_))
    have found : pool.utf8 a.layout.name = .ok a.content.name := first
    rw [found]
    dsimp only [BodyAttribute.layout]
    rw [describe_content]
    exact ih others _

/-- Tables of local variables are put together, and a later stack map takes the place of an earlier
one. -/
private theorem foldl_added (attributes : List BodyAttribute) (c : Code) :
    attributes.foldl (fun c a => a.content.added c) c =
      { c with
        localVariables := c.localVariables ++ attributes.flatMap (·.content.entries)
        stackMap := (attributes.filterMap (·.content.stackMap?)).getLast?.or c.stackMap } := by
  induction attributes generalizing c with
  | nil =>
    change c = { c with localVariables := c.localVariables ++ [] }
    rw [List.append_nil]
  | cons a attributes ih =>
    rw [List.foldl_cons, ih, List.flatMap_cons, getLast?_filterMap_cons_or, ← List.append_assoc]
    rfl

private theorem reads_content {b : BodyLayout} (named : ∀ a ∈ b.attributes, a.Named pool) :
    ReadsWhole IsEnd (content pool) b.content b.code := by
  have attributes := reads_attributes named
    { maxStack := b.maxStack, maxLocals := b.maxLocals, bytes := b.bytes.toArray,
      handlers := b.handlers }
  rw [foldl_added, List.nil_append, Option.or_none] at attributes
  have handlers : ReadsWhole IsEnd (Reader.table .truncated (Handler.entry .truncated))
      (tableBytes Handler.bytes b.handlers) (b.handlers.map fun h => h) :=
    .table truncated_isEnd b.fewHandlers fun h _ => reads_handler h
  rw [List.map_id'] at handlers
  refine .bind (.word truncated_isEnd _) (.bind (.word truncated_isEnd _)
    (.bind (.long truncated_isEnd b.short) (.bind (.take truncated_isEnd _) (.bind handlers ?_))))
  exact .counted_last (g := fun count => CodeAttribute.attributes pool count _) truncated_isEnd
    b.fewAttributes attributes

private theorem reads_whole {b : BodyLayout} (named : ∀ a ∈ b.attributes, a.Named pool)
    (name : UInt16) (declared : UInt32) :
    ReadsWhole IsEnd (whole pool) (b.whole name declared) b.code :=
  .bind (.word truncated_isEnd name)
    (.bind (.long truncated_isEnd declared.toNat_lt) (reads_content named))

/-- Reading a body from its attribute undoes the layout, whatever name and length the attribute
declares, if the index of each attribute inside leads to its name. Cut off anywhere, the attribute
is refused as truncated, and the code of a method that has it as bad. -/
theorem decode_laid {b : BodyLayout} (named : ∀ a ∈ b.attributes, a.Named pool) (name : UInt16)
    (declared : UInt32) :
    decode pool (b.whole name declared) = .ok b.code ∧
    ∀ n < (b.whole name declared).length,
      decode pool ((b.whole name declared).take n) = .error .truncated ∧
      ∀ m : Method, m.withCode pool (some ((b.whole name declared).take n)) =
        .error (.badCode m.signature) := by
  have laid := reads_whole named name declared
  refine ⟨?_, fun n inside => ?_⟩
  · have read := laid.reads []
    rw [List.append_nil] at read
    exact congrArg (Except.map Prod.fst) read
  · obtain ⟨d, rfl, cut⟩ := laid.refuses n inside
    have refused : decode pool ((b.whole name declared).take n) = .error .truncated :=
      congrArg (Except.map Prod.fst) cut
    refine ⟨refused, fun m => ?_⟩
    rw [Method.withCode, refused]

/-- A body with two tables of local variables, two stack maps and one more attribute among them. -/
def repeatedLayout : BodyLayout where
  maxStack := 2
  maxLocals := 3
  bytes := [0x2a, 0xb1]
  handlers := [⟨0, 1, 1, 0⟩]
  attributes := [
    ⟨2, .localVariables [⟨0, 2, 4, 5, 0⟩] (by decide)⟩, ⟨1, .stackMap [0x00, 0x00] (by decide)⟩,
    ⟨3, .other "LineNumberTable" [0x07] (by decide) (by decide)⟩,
    ⟨1, .stackMap [0x00, 0x01, 0x01] (by decide)⟩,
    ⟨2, .localVariables [⟨1, 1, 4, 5, 2⟩, ⟨1, 1, 4, 5, 1⟩] (by decide)⟩]
  short := by decide
  fewHandlers := by decide
  fewAttributes := by decide

theorem decode_laid_repeated :
    let pool : ConstantPool :=
      .ofList [.utf8 "StackMapTable", .utf8 "LocalVariableTable", .utf8 "LineNumberTable"]
    (∀ a ∈ repeatedLayout.attributes, a.Named pool) ∧
    (repeatedLayout.whole 9 0).length = 98 ∧
    decode pool (repeatedLayout.whole 9 0) = .ok {
      maxStack := 2
      maxLocals := 3
      bytes := #[0x2a, 0xb1]
      handlers := [⟨0, 1, 1, 0⟩]
      localVariables := [⟨0, 2, 4, 5, 0⟩, ⟨1, 1, 4, 5, 2⟩, ⟨1, 1, 4, 5, 1⟩]
      stackMap := some [0x00, 0x01, 0x01] } ∧
    decode pool ((repeatedLayout.whole 9 0).take 50) = .error .truncated := by
  intro pool
  have named : ∀ a ∈ repeatedLayout.attributes, a.Named pool := by
    unfold BodyAttribute.Named
    decide
  have laid := decode_laid named 9 0
  exact ⟨named, by decide, laid.1, (laid.2 50 (by decide)).1⟩

end CodeAttribute
end ClassVerifier
