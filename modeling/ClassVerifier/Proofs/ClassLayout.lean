import ClassVerifier.ClassFile.Outline
import ClassVerifier.Proofs.WholeReading
import Mathlib.Control.Monad.Basic

/-! Class files as they are laid out. By counts and declared lengths alone, the outline of a class
file comes to each method, and finds for it the last attribute with the name of bodies. -/
namespace ClassVerifier
open Reader (ReadsWhole wordBytes longBytes tableBytes)

/-- A constant as it is laid out. -/
inductive ConstantLayout where
  | utf8 (text : List UInt8) (short : text.length < 65536)
  | integer (value : UInt32)
  | float (bits : UInt32)
  | long (value : UInt64)
  | double (bits : UInt64)
  | classRef (name : UInt16)
  | string (text : UInt16)
  | fieldRef (owner member : UInt16)
  | methodRef (owner member : UInt16)
  | interfaceMethodRef (owner member : UInt16)
  | nameAndType (name descriptor : UInt16)
  | methodHandle (kind : UInt8) (reference : UInt16)
  | methodType (descriptor : UInt16)
  | dynamic (bootstrap member : UInt16)
  | invokeDynamic (bootstrap member : UInt16)
  | moduleRef (name : UInt16)
  | packageRef (name : UInt16)

namespace ConstantLayout

def tag : ConstantLayout → UInt8
  | utf8 .. => 1
  | integer _ => 3
  | float _ => 4
  | long _ => 5
  | double _ => 6
  | classRef _ => 7
  | string _ => 8
  | fieldRef .. => 9
  | methodRef .. => 10
  | interfaceMethodRef .. => 11
  | nameAndType .. => 12
  | methodHandle .. => 15
  | methodType _ => 16
  | dynamic .. => 17
  | invokeDynamic .. => 18
  | moduleRef _ => 19
  | packageRef _ => 20

/-- The bytes behind the tag. -/
def operands : ConstantLayout → List UInt8
  | utf8 text _ => wordBytes (.ofNat text.length) ++ text
  | integer value | float value => longBytes value.toNat
  | long value | double value => longBytes (value.toNat / 2 ^ 32) ++ longBytes value.toNat
  | classRef index | string index | methodType index | moduleRef index | packageRef index =>
    wordBytes index
  | fieldRef first second | methodRef first second | interfaceMethodRef first second
  | nameAndType first second | dynamic first second | invokeDynamic first second =>
    wordBytes first ++ wordBytes second
  | methodHandle kind reference => kind :: wordBytes reference

def bytes (c : ConstantLayout) : List UInt8 := c.tag :: c.operands

/-- How many indices the constant takes. -/
def width : ConstantLayout → UInt16
  | long _ | double _ => 2
  | _ => 1

/-- How many indices the constants take together. -/
def totalWidth (constants : List ConstantLayout) : Nat := (constants.map (·.width.toNat)).sum

end ConstantLayout

/-- The complete bytes of an attribute if its name is that of bodies. -/
def AttributeLayout.code? (pool : ConstantPool) (a : AttributeLayout) : Option (List UInt8) :=
  if pool.utf8 a.name = .ok "Code" then some a.bytes else none

/-- A field or method as it is laid out. -/
structure MemberLayout where
  access : UInt16
  name : UInt16
  descriptor : UInt16
  attributes : List AttributeLayout
  few : attributes.length < 65536

namespace MemberLayout

def header (m : MemberLayout) : List UInt8 :=
  wordBytes m.access ++ (wordBytes m.name ++ wordBytes m.descriptor)

def bytes (m : MemberLayout) : List UInt8 :=
  m.header ++ tableBytes AttributeLayout.bytes m.attributes

/-- The complete bytes of the last attribute whose name is that of bodies. -/
def code? (pool : ConstantPool) (m : MemberLayout) : Option (List UInt8) :=
  (m.attributes.filterMap (·.code? pool)).getLast?

end MemberLayout

/-- A class file as it is laid out, up to the end of its methods. The count of the pool is one more
than the indices that its constants take. -/
structure ClassLayout where
  minor : UInt16
  major : UInt16
  constants : List ConstantLayout
  access : UInt16
  name : UInt16
  superclass : UInt16
  interfaces : List UInt16
  fields : List MemberLayout
  methods : List MemberLayout
  indexed : 1 + ConstantLayout.totalWidth constants < 65536
  fewInterfaces : interfaces.length < 65536
  fewFields : fields.length < 65536
  fewMethods : methods.length < 65536

namespace ClassLayout

def poolCount (c : ClassLayout) : UInt16 := .ofNat (1 + ConstantLayout.totalWidth c.constants)

/-- Everything before the methods. -/
def front (c : ClassLayout) : List UInt8 :=
  ([0xca, 0xfe, 0xba, 0xbe] ++ (wordBytes c.minor ++ wordBytes c.major)) ++
  (wordBytes c.poolCount ++ (c.constants.flatMap ConstantLayout.bytes ++
  ((wordBytes c.access ++ (wordBytes c.name ++ wordBytes c.superclass)) ++
  (tableBytes wordBytes c.interfaces ++ tableBytes MemberLayout.bytes c.fields))))

/-- Everything up to the end of the methods. -/
def bytes (c : ClassLayout) : List UInt8 := c.front ++ tableBytes MemberLayout.bytes c.methods

end ClassLayout

namespace Outline
variable {pool : ConstantPool}

/-- The bytes are at an end. -/
def Defect.IsEnd (d : Defect) : Prop := d = .endInNumber ∨ d = .endInContent

private theorem number_isEnd : Defect.IsEnd .endInNumber := .inl rfl

private theorem content_isEnd : Defect.IsEnd .endInContent := .inr rfl

private theorem skips {n : Nat} {bytes : List UInt8} (length : bytes.length = n) :
    ReadsWhole Defect.IsEnd (skip n) bytes () := by
  subst length
  exact .bind_last (.take content_isEnd bytes) (.pure ())

/-- The tag of a constant, and for a text its length, say where the constant ends. -/
private theorem reads_extent (c : ConstantLayout) :
    ∃ front back, c.operands = front ++ back ∧
      ReadsWhole Defect.IsEnd (extent c.tag) front (back.length, c.width) := by
  cases c with
  | utf8 text short =>
    refine ⟨wordBytes (.ofNat text.length), text, rfl, .bind_last (.word number_isEnd _) ?_⟩
    rw [UInt16.toNat_ofNat_of_lt' short]
    exact .pure _
  | _ => exact ⟨[], _, rfl, .pure _⟩

theorem skips_constant (c : ConstantLayout) :
    ReadsWhole Defect.IsEnd skipConstant c.bytes c.width := by
  obtain ⟨front, back, operands, read⟩ := reads_extent c
  have rest : ReadsWhole Defect.IsEnd (extent c.tag >>= fun e => skip e.1 >>= fun _ => pure e.2)
      c.operands c.width := operands ▸ read.bind (.bind_last (skips rfl) (.pure _))
  exact .bind (.byte number_isEnd c.tag) rest

section Loop
variable {count index : UInt16}

theorem skipConstants_of_lt (below : index < count) (bytes : List UInt8) :
    skipConstants count index bytes = (skipConstant bytes).bind fun read =>
      if index.toNat + read.1.toNat < 65536 then skipConstants count (index + read.1) read.2
      else .error .overflow := by
  rw [skipConstants, if_pos below]
  rcases skipConstant bytes with d | ⟨indices, rest⟩ <;> rfl

theorem skipConstants_of_le (done : count ≤ index) (bytes : List UInt8) :
    skipConstants count index bytes = .ok bytes := by
  rw [skipConstants, if_neg (UInt16.not_lt.2 done)]

/-- The loop over the constants as a reader. -/
def passConstants (count index : UInt16) : OutlineReader Unit :=
  fun bytes => (((), ·)) <$> skipConstants count index bytes

private theorem passConstants_of_lt (below : index < count) :
    passConstants count index = skipConstant >>= fun indices =>
      if index.toNat + indices.toNat < 65536 then passConstants count (index + indices)
      else Reader.fail .overflow := by
  funext bytes
  rw [passConstants, skipConstants_of_lt below]
  simp only [bind, Reader.bind]
  rcases skipConstant bytes with d | ⟨indices, rest⟩
  · rfl
  · dsimp only [Except.bind]
    split
    · rfl
    · rfl

private theorem passConstants_of_le (done : count ≤ index) :
    passConstants count index = pure () := by
  funext bytes
  rw [passConstants, skipConstants_of_le done]
  rfl

/-- If the constants fill the pool up to its count, the loop passes over all of them and no more. -/
private theorem passes_constants {constants : List ConstantLayout}
    (fill : index.toNat + ConstantLayout.totalWidth constants = count.toNat) :
    ReadsWhole Defect.IsEnd (passConstants count index)
      (constants.flatMap ConstantLayout.bytes) () := by
  induction constants generalizing index with
  | nil =>
    have done : count ≤ index := UInt16.le_iff_toNat_le.2 (Nat.le_of_eq fill.symm)
    rw [passConstants_of_le done]
    exact .pure ()
  | cons c constants ih =>
    have split : ConstantLayout.totalWidth (c :: constants) =
        c.width.toNat + ConstantLayout.totalWidth constants := List.sum_cons
    have positive : 0 < c.width.toNat := by
      unfold ConstantLayout.width
      split <;> decide
    have bound := count.toNat_lt
    have below : index < count := by
      rw [UInt16.lt_iff_toNat_lt]
      omega
    have fits : index.toNat + c.width.toNat < 65536 := by omega
    have next : (index + c.width).toNat = index.toNat + c.width.toNat := by
      rw [UInt16.toNat_add, Nat.mod_eq_of_lt fits]
    rw [passConstants_of_lt below]
    refine (skips_constant c).bind ?_
    rw [if_pos fits]
    exact ih (by omega)

end Loop

private theorem skips_attribute (a : AttributeLayout) :
    ReadsWhole Defect.IsEnd skipAttribute a.bytes () :=
  .bind (skips rfl) (.bind (.long number_isEnd a.short) (skips rfl))

private theorem skips_field (m : MemberLayout) : ReadsWhole Defect.IsEnd skipField m.bytes () :=
  .bind (skips rfl)
    (.counted_last (g := fun count => Reader.times count skipAttribute >>= fun _ => pure ())
      number_isEnd m.few (.bind_last (.times fun a _ => skips_attribute a) (.pure ())))

/-- The complete bytes of an attribute are kept in place of what was found before just in case its
name is that of bodies. -/
private theorem kept_eq (a : AttributeLayout) (found : Option (List UInt8)) :
    (if namesCode pool a.name then some a.bytes else found) = (a.code? pool).or found := by
  unfold namesCode AttributeLayout.code?
  cases pool.utf8 a.name with
  | ok name => by_cases h : name = "Code" <;> simp [h]
  | error cause => simp

/-- The name and the length of an attribute, with its content passed over. -/
def attributeHeader : OutlineReader (UInt16 × Nat) := do
  let name ← Reader.word .endInNumber
  let length ← Reader.long .endInNumber
  skip length
  return (name, length)

theorem attributeBytes_eq (bytes : List UInt8) :
    attributeBytes bytes =
      (attributeHeader bytes).map fun read => ((read.1.1, bytes.take (6 + read.1.2)), read.2) := by
  simp only [attributeBytes, attributeHeader, bind, Reader.bind]
  change Except.bind (Reader.word Defect.endInNumber bytes) _ = _
  rcases Reader.word Defect.endInNumber bytes with d | ⟨name, rest⟩
  · rfl
  · change Except.bind (Reader.long Defect.endInNumber rest) _ = _
    dsimp only
    rcases Reader.long Defect.endInNumber rest with d | ⟨length, rest⟩
    · rfl
    · change Except.bind (skip length rest) _ = _
      dsimp only
      rcases skip length rest with d | ⟨_, rest⟩ <;> rfl

private theorem reads_attribute (a : AttributeLayout) :
    ReadsWhole Defect.IsEnd attributeBytes a.bytes (a.name, a.bytes) := by
  have header : ReadsWhole Defect.IsEnd attributeHeader a.bytes (a.name, a.content.length) :=
    .bind (.word number_isEnd _)
      (.bind (.long number_isEnd a.short) (.bind_last (skips rfl) (.pure _)))
  constructor
  · intro rest
    rw [attributeBytes_eq, header.reads rest]
    simp only [Except.map, ← a.length_bytes, List.take_left]
  · intro n inside
    obtain ⟨d, hd, cut⟩ := header.refuses n inside
    refine ⟨d, hd, ?_⟩
    rw [attributeBytes_eq, cut]
    rfl

private theorem reads_lastCode (pool : ConstantPool) (attributes : List AttributeLayout)
    (found : Option (List UInt8)) :
    ReadsWhole Defect.IsEnd (lastCode pool attributes.length found)
      (attributes.flatMap AttributeLayout.bytes)
      ((attributes.filterMap (·.code? pool)).getLast?.or found) := by
  induction attributes generalizing found with
  | nil => exact .pure found
  | cons a attributes ih =>
    rw [List.flatMap_cons, getLast?_filterMap_cons_or, ← kept_eq]
    exact .bind (reads_attribute a) (ih _)

private theorem reads_method (m : MemberLayout) :
    ReadsWhole Defect.IsEnd (method pool) m.bytes (m.code? pool) := by
  have last := reads_lastCode pool m.attributes none
  rw [Option.or_none] at last
  exact .bind (skips rfl)
    (.counted_last (g := fun count => lastCode pool count none) number_isEnd m.few last)

private theorem skips_front (c : ClassLayout) :
    ReadsWhole Defect.IsEnd skipToMethods c.front () := by
  have fill : (1 : UInt16).toNat + ConstantLayout.totalWidth c.constants = c.poolCount.toNat :=
    (UInt16.toNat_ofNat_of_lt' c.indexed).symm
  have interfaces : (c.interfaces.flatMap wordBytes).length = 2 * c.interfaces.length := by
    have two (index : UInt16) : (wordBytes index).length = 2 := rfl
    rw [length_flatMap_of_eq two, Nat.mul_comm]
  have fields : ReadsWhole Defect.IsEnd
      (Reader.times c.fields.length skipField >>= fun _ => pure ())
      (c.fields.flatMap MemberLayout.bytes) () :=
    .bind_last (.times fun m _ => skips_field m) (.pure ())
  refine .bind (skips rfl) (.bind (.word number_isEnd _) (.bind (passes_constants fill)
    (.bind (skips rfl) ?_)))
  refine .counted (g := fun count => skip (2 * count) >>= fun _ => Reader.word .endInNumber >>=
    fun count => Reader.times count.toNat skipField >>= fun _ => pure ()) number_isEnd
    c.fewInterfaces (.bind (skips interfaces) ?_)
  exact .counted_last (g := fun count => Reader.times count skipField >>= fun _ => pure ())
    number_isEnd c.fewFields fields

private theorem reads_methods (pool : ConstantPool) (c : ClassLayout) :
    ReadsWhole Defect.IsEnd
      (skipToMethods >>= fun _ => Reader.word .endInNumber >>= fun count =>
        Reader.times count.toNat (method pool))
      c.bytes (c.methods.map (·.code? pool)) :=
  .bind (skips_front c) (.table number_isEnd c.fewMethods fun m _ => reads_method m)

/-- The outline of a class file gives for each method in order the complete bytes of its last
attribute with the name of bodies, if it has one, whatever follows the methods. A file that is cut
off before the end of its methods has no outline, because the bytes are at an end. -/
theorem codeAttributes_laid (pool : ConstantPool) (c : ClassLayout) (behind : List UInt8) :
    codeAttributes pool (c.bytes ++ behind) = .ok (c.methods.map (·.code? pool)) ∧
    ∀ n < c.bytes.length, ∃ d, Defect.IsEnd d ∧
      codeAttributes pool ((c.bytes ++ behind).take n) = .error d := by
  have whole := reads_methods pool c
  refine ⟨?_, fun n inside => ?_⟩
  · have read := whole.reads behind
    exact congrArg (Except.map Prod.fst) read
  · obtain ⟨d, hd, cut⟩ := whole.refuses n inside
    rw [List.take_append_of_le_length (Nat.le_of_lt inside)]
    exact ⟨d, hd, congrArg (Except.map Prod.fst) cut⟩

/-- A class file with an eight-byte constant, a field, and two methods. The first method has two
attributes with the name of bodies and another one between them, the second has none. -/
def twiceLayout : ClassLayout where
  minor := 0
  major := 52
  constants := [.utf8 [0x43, 0x6f, 0x64, 0x65] (by decide), .long 7, .utf8 [0x6d] (by decide)]
  access := 0x21
  name := 0
  superclass := 0
  interfaces := [0]
  fields := [⟨0, 4, 4, [⟨4, [0x09], by decide⟩], by decide⟩]
  methods := [
    ⟨1, 4, 4, [⟨1, [0x0a], by decide⟩, ⟨4, [], by decide⟩, ⟨1, [0x0b, 0x0c], by decide⟩],
      by decide⟩,
    ⟨1, 4, 4, [⟨4, [0x0d], by decide⟩], by decide⟩]
  indexed := by decide
  fewInterfaces := by decide
  fewFields := by decide
  fewMethods := by decide

theorem codeAttributes_laid_twice :
    let pool : ConstantPool := .ofList [.utf8 "Code", .long, .utf8 "m"]
    twiceLayout.bytes.length = 103 ∧
    codeAttributes pool (twiceLayout.bytes ++ [0x00, 0x00]) =
      .ok [some [0x00, 0x01, 0x00, 0x00, 0x00, 0x02, 0x0b, 0x0c], none] ∧
    ∃ d, Defect.IsEnd d ∧
      codeAttributes pool ((twiceLayout.bytes ++ [0x00, 0x00]).take 102) = .error d := by
  intro pool
  have laid := codeAttributes_laid pool twiceLayout [0x00, 0x00]
  have bodies : twiceLayout.methods.map (·.code? pool) =
      [some [0x00, 0x01, 0x00, 0x00, 0x00, 0x02, 0x0b, 0x0c], none] := by decide
  exact ⟨by decide, bodies ▸ laid.1, laid.2 102 (by decide)⟩

end Outline
end ClassVerifier
