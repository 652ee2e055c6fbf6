import ClassVerifier.Proofs.Assignability
import ClassVerifier.Proofs.DescriptorGrammar
import Mathlib.Logic.Function.Iterate

/-! Arrays are named by their descriptors, and such a name means what the type means that it was
written for: its component and its dimensions can be read off, no two types share a name, and an
array stands for another one as the component of the one does for that of the other. -/
namespace ClassVerifier

theorem IsClassName.bracket_not_mem {name : List Char} (named : IsClassName name) : '[' ∉ name :=
  fun mem => absurd (named.2 _ mem) (by decide)

namespace FieldType

/-- A class or an array. -/
def isReference : FieldType → Bool
  | .primitive _ => false
  | .object _ | .array _ => true

theorem chars_injective {t u : FieldType} (h : t.chars = u.chars) : t = u := by
  induction t generalizing u with
  | primitive kind =>
    cases u with
    | primitive kind' => cases kind <;> cases kind' <;> first | rfl | cases h
    | object name | array u => cases kind <;> cases h
  | object name =>
    cases u with
    | primitive kind => cases kind <;> cases h
    | object name' =>
      have same := List.append_cancel_right (List.cons.inj h).2
      rw [String.toList_inj.1 same]
    | array u => cases h
  | array t ih =>
    cases u with
    | primitive kind => cases kind <;> cases h
    | object name => cases h
    | array u => rw [ih (List.cons.inj h).2]

theorem descriptor_injective {t u : FieldType} (h : t.descriptor = u.descriptor) : t = u :=
  chars_injective (String.ofList_injective h)

theorem dimensions_arrays (t : FieldType) (n : Nat) :
    (array^[n] t).dimensions = n + t.dimensions := by
  induction n with
  | zero => exact (Nat.zero_add _).symm
  | succ n ih => rw [Function.iterate_succ_apply', dimensions, ih, Nat.succ_add]

theorem isReference_arrays {t : FieldType} (reference : t.isReference) (n : Nat) :
    (array^[n] t).isReference := by
  cases n with
  | zero => exact reference
  | succ n =>
    rw [Function.iterate_succ_apply']
    rfl

end FieldType

namespace SlotType
open FieldType (isReference)
variable {t u : FieldType}

/-- Taken apart, the name of an array leaves that of its component. -/
theorem exists_name_of_isReference (reference : t.isReference) : ∃ name : String,
    ofFieldType t = .reference name ∧
      ClassName.component? (FieldType.array t).chars = some name.toList := by
  cases t with
  | primitive kind => cases reference
  | object name =>
    refine ⟨name, rfl, ?_⟩
    simp [FieldType.chars, ClassName.component?, ClassName.unwrap?]
  | array t =>
    refine ⟨_, rfl, ?_⟩
    rw [FieldType.toList_descriptor]
    rfl

theorem component?_ofFieldType_array (t : FieldType) :
    (ofFieldType (.array t)).component? = some (ofFieldType t) := by
  by_cases reference : t.isReference
  · obtain ⟨name, named, component⟩ := exists_name_of_isReference reference
    rw [← FieldType.toList_descriptor] at component
    have references := ClassName.hasReferenceComponent_of_component? component
    rw [ofFieldType, component?_eq references, component, Option.map_some, String.ofList_toList,
      named]
  · cases t with
    | primitive kind =>
      simp only [ofFieldType, component?, FieldType.toList_descriptor]
      cases kind <;> rfl
    | object name | array t => exact absurd rfl reference

private theorem length_takeWhile_chars (t : FieldType) :
    (t.chars.takeWhile (· = '[')).length = t.dimensions := by
  induction t with
  | primitive kind => cases kind <;> rfl
  | object name => rfl
  | array t ih => exact congrArg (· + 1) ih

private theorem takeWhile_of_isClassName {name : List Char} (named : IsClassName name) :
    name.takeWhile (· = '[') = [] := by
  cases name with
  | nil => rfl
  | cons c name =>
    have other : c ≠ '[' := fun he => named.bracket_not_mem (he ▸ List.mem_cons_self)
    exact List.takeWhile_cons_of_neg (by simpa using other)

/-- A well formed type has as many dimensions as its name. -/
theorem dimensions_ofFieldType (formed : t.IsWellFormed) :
    (ofFieldType t).dimensions = t.dimensions := by
  cases t with
  | primitive kind => cases kind <;> rfl
  | object name =>
    rw [ofFieldType, dimensions, takeWhile_of_isClassName (formed.named name rfl)]
    rfl
  | array t => rw [ofFieldType, dimensions, FieldType.toList_descriptor, length_takeWhile_chars]

/-- Every array adds a dimension to its element's, however the element is named. -/
theorem dimensions_arrays (formed : t.IsWellFormed) (n : Nat) :
    (ofFieldType (FieldType.array^[n] t)).dimensions = n + t.dimensions := by
  cases n with
  | zero => rw [Function.iterate_zero_apply, dimensions_ofFieldType formed, Nat.zero_add]
  | succ n =>
    rw [Function.iterate_succ_apply', ofFieldType, dimensions, FieldType.toList_descriptor,
      length_takeWhile_chars, FieldType.dimensions, FieldType.dimensions_arrays, Nat.succ_add]

/-- No class is named like an array. -/
private theorem ne_descriptor_array {name : String} (named : IsClassName name.toList)
    (component : FieldType) : name ≠ (FieldType.array component).descriptor := by
  rintro rfl
  rw [FieldType.toList_descriptor] at named
  exact named.bracket_not_mem List.mem_cons_self

/-- Well formed references of one name are of one type. -/
theorem eq_of_ofFieldType_eq (ht : t.IsWellFormed) (hu : u.IsWellFormed)
    (references : t.isReference ∧ u.isReference) (same : ofFieldType t = ofFieldType u) :
    t = u := by
  cases t with
  | primitive kind => cases references.1
  | object name =>
    cases u with
    | primitive kind => cases references.2
    | object name' => rw [SlotType.reference.inj same]
    | array u =>
      exact absurd (SlotType.reference.inj same) (ne_descriptor_array (ht.named name rfl) u)
  | array t =>
    cases u with
    | primitive kind => cases references.2
    | object name =>
      have swapped := (SlotType.reference.inj same).symm
      exact absurd swapped (ne_descriptor_array (hu.named name rfl) t)
    | array u => exact FieldType.descriptor_injective (SlotType.reference.inj same)

private theorem hasReferenceComponent_array (t : FieldType) :
    ClassName.hasReferenceComponent (FieldType.array t).chars = t.isReference := by
  cases t with
  | primitive kind => cases kind <;> rfl
  | object name | array t => rfl

private theorem isArray_array (t : FieldType) : ClassName.isArray (FieldType.array t).chars := by
  obtain ⟨c, cs, he, _⟩ := t.chars_eq_cons
  rw [FieldType.chars, he]
  rfl

private theorem accepts_reference (name other : String) :
    (reference name).accepts (reference other) = ClassName.accepts name.toList other.toList := by
  unfold accepts
  split
  · next same =>
    obtain rfl : name = other := by simpa using same
    rw [ClassName.accepts, if_pos rfl]
  · rfl

/-- Different arrays are compared by their components if both have references. -/
private theorem accepts_chars (different : t ≠ u) :
    ClassName.accepts (FieldType.array t).chars (FieldType.array u).chars =
      if t.isReference && u.isReference then (ofFieldType t).accepts (ofFieldType u)
      else pure false := by
  have chars : (FieldType.array t).chars ≠ (FieldType.array u).chars :=
    fun he => different (FieldType.chars_injective (List.cons.inj he).2)
  rw [ClassName.accepts, if_neg chars, if_neg (ClassName.not_isObject_of_isArray (isArray_array t)),
    if_pos (by rw [isArray_array, isArray_array]; rfl), hasReferenceComponent_array,
    hasReferenceComponent_array]
  split
  · next references =>
    rw [Bool.and_eq_true] at references
    obtain ⟨name, named, component⟩ := exists_name_of_isReference references.1
    obtain ⟨other, named', component'⟩ := exists_name_of_isReference references.2
    rw [named, named', accepts_reference]
    split
    · next ht hu =>
      cases ht.symm.trans component
      cases hu.symm.trans component'
      rfl
    · next incomplete => exact absurd component' (incomplete _ _ component)
  · rfl

/-- Arrays of references stand for each other as their components do, and arrays of anything else
only for themselves. -/
theorem accepts_array (t u : FieldType) :
    (ofFieldType (.array t)).accepts (ofFieldType (.array u)) =
      if t.isReference && u.isReference then (ofFieldType t).accepts (ofFieldType u)
      else pure (decide (t = u)) := by
  by_cases same : t = u
  · subst same
    simp [accepts]
  · rw [ofFieldType, ofFieldType, accepts_reference, FieldType.toList_descriptor,
      FieldType.toList_descriptor, accepts_chars same, decide_eq_false same]

/-- Arrays of references are compared by their elements at any depth. -/
theorem accepts_arrays (references : t.isReference ∧ u.isReference) (n : Nat) :
    (ofFieldType (FieldType.array^[n] t)).accepts (ofFieldType (FieldType.array^[n] u)) =
      (ofFieldType t).accepts (ofFieldType u) := by
  induction n with
  | zero => rfl
  | succ n ih =>
    rw [Function.iterate_succ_apply', Function.iterate_succ_apply', accepts_array,
      FieldType.isReference_arrays references.1, FieldType.isReference_arrays references.2, ← ih]
    rfl

/-- An array's name means what its type does: its component and its dimensions can be read off it,
no other type has it, and to compare two arrays is to compare their components if these are
references, with the same questions to the hierarchy and the same failures. So references are
compared alike as elements of arrays of any depth. -/
theorem array_types_structured (ht : t.IsWellFormed) (hu : u.IsWellFormed) :
    (ofFieldType (.array t)).component? = some (ofFieldType t) ∧
    (t.dimensions = 0 → ∀ n, (ofFieldType (FieldType.array^[n] t)).dimensions = n) ∧
    (t.isReference → u.isReference → ofFieldType t = ofFieldType u → t = u) ∧
    (ofFieldType (.array t)).accepts (ofFieldType (.array u)) =
      (if t.isReference && u.isReference then (ofFieldType t).accepts (ofFieldType u)
      else pure (decide (t = u))) ∧
    (t.isReference → u.isReference → ∀ n,
      (ofFieldType (FieldType.array^[n] t)).accepts (ofFieldType (FieldType.array^[n] u)) =
        (ofFieldType t).accepts (ofFieldType u)) := by
  refine ⟨component?_ofFieldType_array t, fun flat n => ?_, fun ht' hu' => ?_, accepts_array t u,
    fun ht' hu' => accepts_arrays ⟨ht', hu'⟩⟩
  · rw [dimensions_arrays ht, flat, Nat.add_zero]
  · exact eq_of_ofFieldType_eq ht hu ⟨ht', hu'⟩

theorem array_types_structured_objects :
    let object := FieldType.object ClassName.object
    let ints := FieldType.array (.primitive .int)
    object.IsWellFormed ∧ ints.IsWellFormed ∧
      (ofFieldType (.array object)).component? = some (.reference "java/lang/Object") ∧
      (ofFieldType (.array object)).accepts (ofFieldType (.array ints)) =
        (ofFieldType object).accepts (ofFieldType ints) := by
  have object : (FieldType.object ClassName.object).IsWellFormed :=
    ⟨by rintro _ ⟨⟩; decide, by decide⟩
  have ints : (FieldType.array (.primitive .int)).IsWellFormed := ⟨nofun, by decide⟩
  obtain ⟨component, _, _, accepts, _⟩ := array_types_structured object ints
  exact ⟨object, ints, component, accepts⟩

end SlotType
end ClassVerifier
