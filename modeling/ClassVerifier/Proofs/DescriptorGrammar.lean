import ClassVerifier.Proofs.Run
import Mathlib.Tactic.Tauto

/-! Descriptors are read and written without loss. What the readers accept is exactly what is
written for well formed types, so no text can be read in two ways. -/
namespace ClassVerifier

/-- The name of a class as it stands in a descriptor: between its slashes there are nonempty
segments, and it has none of the characters that descriptors need for themselves. -/
def IsClassName (name : List Char) : Prop :=
  (∀ segment ∈ name.splitOn '/', segment ≠ []) ∧
    ∀ c ∈ name, c ∉ ['.', ';', '[', '(', ')', '<', '>']

/-- By going through the name: another search would go through all characters there are. -/
instance : DecidablePred IsClassName := fun _ =>
  @instDecidableAnd _ _ (List.decidableBAll _ _) (List.decidableBAll _ _)

namespace FieldType

/-- A field type that has a descriptor. -/
structure IsWellFormed (t : FieldType) : Prop where
  named : ∀ name, t.element = .object name → IsClassName name.toList
  bounded : t.dimensions ≤ 255

/-- A descriptor begins with a character that begins neither the end of the parameters nor void. -/
theorem chars_eq_cons (t : FieldType) : ∃ c cs, t.chars = c :: cs ∧ c ≠ ')' ∧ c ≠ 'V' := by
  cases t with
  | primitive kind =>
    exact ⟨kind.letter, [], rfl, by cases kind <;> decide, by cases kind <;> decide⟩
  | object name => exact ⟨'L', _, rfl, by decide, by decide⟩
  | array component => exact ⟨'[', _, rfl, by decide, by decide⟩

end FieldType

namespace Descriptor
variable {cs name rest : List Char} {t : FieldType} {d : Nat}

private theorem className?_sound (h : className? cs = some (name, rest)) :
    cs = name ++ ';' :: rest ∧ ∀ c ∈ name, c ≠ ';' ∧ c ∉ reserved := by
  fun_induction className? cs generalizing name with
  | case1 => cases h
  | case2 r =>
    cases h
    exact ⟨rfl, List.forall_mem_nil _⟩
  | case3 => cases h
  | case4 c r other plain ih =>
    obtain ⟨⟨more, _⟩, read, he⟩ := Option.map_eq_some_iff.1 h
    cases he
    obtain ⟨rfl, clean⟩ := ih read
    exact ⟨rfl, List.forall_mem_cons.2 ⟨⟨other, plain⟩, clean⟩⟩

private theorem className?_append (rest : List Char) (clean : ∀ c ∈ name, c ≠ ';' ∧ c ∉ reserved) :
    className? (name ++ ';' :: rest) = some (name, rest) := by
  induction name with
  | nil => rfl
  | cons c name ih =>
    obtain ⟨⟨other, plain⟩, clean⟩ := List.forall_mem_cons.1 clean
    rw [List.cons_append, className?, if_neg plain, ih clean]
    · rfl
    · exact other

theorem className?_eq_some_iff :
    className? cs = some (name, rest) ↔
      cs = name ++ ';' :: rest ∧ ∀ c ∈ name, c ≠ ';' ∧ c ∉ reserved :=
  ⟨className?_sound, fun ⟨he, clean⟩ => he ▸ className?_append rest clean⟩

private theorem splitOn_slash : ('/' :: name).splitOn '/' = [] :: name.splitOn '/' := by
  rw [List.splitOn_cons_eq_if_modifyHead]
  rfl

/-- A character other than a slash belongs to the first segment. -/
private theorem splitOn_of_ne (name : List Char) {c : Char} (other : c ≠ '/') : ∃ segment segments,
    name.splitOn '/' = segment :: segments ∧
      (c :: name).splitOn '/' = (c :: segment) :: segments := by
  obtain ⟨segment, segments, split⟩ := List.exists_cons_of_ne_nil (List.splitOn_ne_nil '/' name)
  refine ⟨segment, segments, split, ?_⟩
  rw [List.splitOn_cons_eq_if_modifyHead, if_neg (by simpa using other), split]
  rfl

theorem segmented_iff : segmented name ↔ ∀ segment ∈ name.splitOn '/', segment ≠ [] := by
  fun_induction segmented name with
  | case1 => simp
  | case2 c =>
    rw [bne_iff_ne]
    by_cases slash : c = '/'
    · rw [slash, splitOn_slash]
      simp
    · obtain ⟨segment, segments, split, split'⟩ := splitOn_of_ne [] slash
      rw [split']
      cases split
      simp [slash]
  | case3 c d rest ih' ih =>
    rw [Bool.and_eq_true, bne_iff_ne]
    by_cases slash : c = '/'
    · rw [slash, splitOn_slash]
      simp
    · obtain ⟨segment, segments, split, split'⟩ := splitOn_of_ne (d :: rest) slash
      rw [and_iff_right slash, split', List.forall_mem_cons, and_iff_right (List.cons_ne_nil _ _)]
      by_cases double : d = '/'
      · rw [if_pos double, ih']
        rw [double, splitOn_slash] at split
        cases split
        rfl
      · obtain ⟨start, _, _, start'⟩ := splitOn_of_ne rest double
        rw [if_neg double, ih, split]
        cases split.symm.trans start'
        rw [List.forall_mem_cons, and_iff_right (List.cons_ne_nil _ _)]

/-- The scan up to the semicolon and the look at the segments together make out a class name. -/
theorem isClassName_iff :
    IsClassName name ↔ (∀ c ∈ name, c ≠ ';' ∧ c ∉ reserved) ∧ segmented name := by
  rw [IsClassName, segmented_iff, and_comm]
  refine and_congr_left' (forall₂_congr fun c _ => ?_)
  simp only [reserved, List.mem_cons, List.not_mem_nil, or_false, not_or]
  tauto

/-- The letter of a primitive type begins neither a class nor an array. -/
theorem ofLetter?_eq_some_iff {c : Char} {kind : Primitive} :
    Primitive.ofLetter? c = some kind ↔ c = kind.letter := by
  constructor
  · intro h
    unfold Primitive.ofLetter? at h
    split at h <;> cases h <;> rfl
  · rintro rfl
    exact Primitive.ofLetter?_letter kind

private theorem fieldType_sound (h : fieldType d cs = .ok (t, rest)) :
    (∀ name, t.element = .object name → IsClassName name.toList) ∧ t.dimensions ≤ d ∧
      cs = t.chars ++ rest := by
  fun_induction fieldType d cs generalizing t with
  | case1 | case3 | case4 | case5 | case7 | case9 => cases h
  | case2 d r name s read segments =>
    cases h
    obtain ⟨rfl, clean⟩ := className?_eq_some_iff.1 read
    refine ⟨fun _ named => ?_, Nat.zero_le d, ?_⟩
    · cases named
      rw [String.toList_ofList]
      exact isClassName_iff.2 ⟨clean, segments⟩
    · simp [FieldType.chars]
  | case6 r n component s read ih =>
    cases h
    obtain ⟨named, bounded, rfl⟩ := ih read
    exact ⟨named, Nat.succ_le_succ bounded, rfl⟩
  | case8 d c r _ _ kind letter =>
    cases h
    refine ⟨fun _ named => ?_, Nat.zero_le d, ?_⟩
    · cases named
    · exact congrArg (· :: rest) (ofLetter?_eq_some_iff.1 letter)

private theorem fieldType_append (rest : List Char)
    (named : ∀ name, t.element = .object name → IsClassName name.toList)
    (bounded : t.dimensions ≤ d) : fieldType d (t.chars ++ rest) = .ok (t, rest) := by
  induction t generalizing d with
  | primitive kind =>
    have letter := Primitive.ofLetter?_letter kind
    rw [FieldType.chars, List.singleton_append, fieldType, letter] <;> cases kind <;> decide
  | object name =>
    obtain ⟨clean, segments⟩ := isClassName_iff.1 (named name rfl)
    have read := className?_append rest clean
    rw [FieldType.chars, List.cons_append, List.append_assoc, List.singleton_append, fieldType,
      read]
    dsimp only
    rw [if_pos segments, String.ofList_toList]
  | array component ih =>
    cases d with
    | zero => cases bounded
    | succ d =>
      rw [FieldType.chars, List.cons_append, fieldType, ih named (Nat.le_of_succ_le_succ bounded)]

theorem fieldType_ok : fieldType d cs = .ok (t, rest) ↔
    (∀ name, t.element = .object name → IsClassName name.toList) ∧ t.dimensions ≤ d ∧
      cs = t.chars ++ rest :=
  ⟨fieldType_sound, fun ⟨named, bounded, he⟩ => he ▸ fieldType_append rest named bounded⟩

theorem wholeType_ok : wholeType cs = .ok t ↔ t.IsWellFormed ∧ cs = t.chars := by
  have whole : wholeType cs = .ok t ↔ fieldType maxDimensions cs = .ok (t, []) := by
    unfold wholeType
    split <;> simp_all
  rw [whole, fieldType_ok, List.append_nil]
  exact ⟨fun ⟨named, bounded, he⟩ => ⟨⟨named, bounded⟩, he⟩,
    fun ⟨⟨named, bounded⟩, he⟩ => ⟨named, bounded, he⟩⟩

private theorem parameters_sound {ts : List FieldType} (h : parameters cs = .ok (ts, rest)) :
    (∀ t ∈ ts, t.IsWellFormed) ∧ cs = ts.flatMap FieldType.chars ++ ')' :: rest := by
  fun_induction parameters cs generalizing ts with
  | case1 | case3 | case4 => cases h
  | case2 =>
    cases h
    exact ⟨nofun, rfl⟩
  | case5 c r _ t s read ts' s' read' ih =>
    cases h
    obtain ⟨formed, rfl⟩ := ih read'
    obtain ⟨named, bounded, he⟩ := fieldType_ok.1 read
    refine ⟨List.forall_mem_cons.2 ⟨⟨named, bounded⟩, formed⟩, ?_⟩
    rw [he, List.flatMap_cons, List.append_assoc]

private theorem parameters_append {ts : List FieldType} (formed : ∀ t ∈ ts, t.IsWellFormed) :
    parameters (ts.flatMap FieldType.chars ++ ')' :: rest) = .ok (ts, rest) := by
  induction ts with
  | nil => rw [List.flatMap_nil, List.nil_append, parameters]
  | cons t ts ih =>
    obtain ⟨first, formed⟩ := List.forall_mem_cons.1 formed
    have read : fieldType maxDimensions _ = _ :=
      fieldType_append (ts.flatMap FieldType.chars ++ ')' :: rest) first.named first.bounded
    rw [List.flatMap_cons, List.append_assoc]
    obtain ⟨c, cs, he, other, _⟩ := t.chars_eq_cons
    rw [he, List.cons_append] at read ⊢
    unfold parameters
    split
    · next none => cases none
    · next closed =>
      cases closed
      exact absurd rfl other
    · next same =>
      cases same
      split
      · next failed => cases failed.symm.trans read
      · next read' =>
        cases read'.symm.trans read
        rw [ih formed]

theorem parameters_ok {ts : List FieldType} : parameters cs = .ok (ts, rest) ↔
    (∀ t ∈ ts, t.IsWellFormed) ∧ cs = ts.flatMap FieldType.chars ++ ')' :: rest :=
  ⟨parameters_sound, fun ⟨formed, he⟩ => he ▸ parameters_append formed⟩

private theorem result_void : result cs = .ok none ↔ cs = ['V'] := by
  unfold result
  split
  · exact iff_of_true rfl rfl
  · next other => exact iff_of_false nofun fun he => other (List.cons.inj he).2
  · next other _ =>
    refine iff_of_false (fun read => ?_) other
    cases whole : wholeType cs <;> rw [whole] at read <;> cases read

private theorem result_some : result cs = .ok (some t) ↔ wholeType cs = .ok t := by
  have void (more : List Char) : wholeType ('V' :: more) ≠ .ok t := by
    intro read
    obtain ⟨c, _, he, _, other⟩ := t.chars_eq_cons
    cases (wholeType_ok.1 read).2.trans he
    exact other rfl
  unfold result
  split
  · exact iff_of_false nofun (void _)
  · exact iff_of_false nofun (void _)
  · cases wholeType cs <;> simp [Except.map]

theorem result_ok {r : Option FieldType} : result cs = .ok r ↔
    (∀ t ∈ r, t.IsWellFormed) ∧ cs = MethodType.resultChars r := by
  cases r with
  | none => simp [result_void, MethodType.resultChars]
  | some t => simp [result_some, wholeType_ok, MethodType.resultChars]

end Descriptor

namespace FieldType

@[simp] theorem toList_descriptor (t : FieldType) : t.descriptor.toList = t.chars :=
  String.toList_ofList

theorem ofDescriptor_ok {s : String} {t : FieldType} :
    FieldType.ofDescriptor s = .ok t ↔ t.IsWellFormed ∧ s = t.descriptor := by
  rw [FieldType.ofDescriptor, Descriptor.wholeType_ok, ← String.toList_inj, toList_descriptor]

end FieldType

namespace MethodType

/-- The parameters stand between parentheses without anything between them, and void is a letter. -/
theorem descriptor_eq (t : MethodType) : t.descriptor =
    "(" ++ String.join (t.parameters.map FieldType.descriptor) ++ ")" ++
      (t.result.map FieldType.descriptor).getD "V" := by
  obtain ⟨parameters, result⟩ := t
  rw [← String.toList_inj, MethodType.descriptor, String.toList_ofList, chars]
  cases result <;> simp [resultChars, String.toList_append, String.toList_join, List.flatMap_map]

theorem ofDescriptor_ok {s : String} {type : MethodType} :
    MethodType.ofDescriptor s = .ok type ↔
      (∀ t ∈ type.parameters, t.IsWellFormed) ∧ (∀ t ∈ type.result, t.IsWellFormed) ∧
        s = type.descriptor := by
  rw [MethodType.descriptor, ← String.toList_inj, String.toList_ofList, MethodType.chars]
  unfold MethodType.ofDescriptor
  split
  · next cs he =>
    rw [he, List.cons_inj_right, except_bind_ok]
    constructor
    · rintro ⟨⟨parameters, rest⟩, read, h⟩
      obtain ⟨result, read', he⟩ := except_bind_ok.1 h
      cases he
      obtain ⟨formed, rfl⟩ := Descriptor.parameters_ok.1 read
      obtain ⟨formed', rfl⟩ := Descriptor.result_ok.1 read'
      exact ⟨formed, formed', rfl⟩
    · rintro ⟨formed, formed', rfl⟩
      refine ⟨(type.parameters, resultChars type.result), Descriptor.parameters_ok.2 ⟨formed, rfl⟩,
        except_bind_ok.2 ⟨type.result, Descriptor.result_ok.2 ⟨formed', rfl⟩, rfl⟩⟩
  · next other => exact iff_of_false nofun fun h => other _ h.2.2

end MethodType

/-- Reading takes exactly the descriptors of well formed types, and gives back the type that was
written. -/
theorem descriptors_read_back (s : String) :
    (∀ t, FieldType.ofDescriptor s = .ok t ↔ t.IsWellFormed ∧ s = t.descriptor) ∧
    ∀ parameters result, MethodType.ofDescriptor s = .ok ⟨parameters, result⟩ ↔
      (∀ t ∈ parameters, t.IsWellFormed) ∧ (∀ t ∈ result, t.IsWellFormed) ∧
        s = "(" ++ String.join (parameters.map FieldType.descriptor) ++ ")" ++
          (result.map FieldType.descriptor).getD "V" := by
  refine ⟨fun t => FieldType.ofDescriptor_ok, fun parameters result => ?_⟩
  rw [MethodType.ofDescriptor_ok, MethodType.descriptor_eq]

example : MethodType.ofDescriptor "([[ILjava/lang/String;)V" =
    .ok ⟨[.array (.array (.primitive .int)), .object "java/lang/String"], none⟩ := by
  cbv

end ClassVerifier
