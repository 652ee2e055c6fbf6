import ClassVerifier.Proofs.Assignability

/-! Assignability is transitive where the expected type is not made of interfaces. What an array is
made of is found by taking it apart as long as that goes, whatever its name looks like. -/
namespace ClassVerifier

namespace SlotType

/-- The length of a name, which goes down when an array is taken apart. -/
private def nameLength : SlotType → Nat
  | reference name => name.length + 1
  | _ => 0

private theorem nameLength_component? {t component : SlotType} (h : t.component? = some component) :
    component.nameLength < t.nameLength := by
  unfold component? at h
  split at h
  · next name =>
    split at h
    iterate 8
      cases h
      exact Nat.succ_pos _
    obtain ⟨cs, hs, rfl⟩ := Option.map_eq_some_iff.1 h
    have shorter := ClassName.component?_length hs
    rw [nameLength, nameLength, String.length_ofList, ← String.length_toList]
    exact Nat.succ_lt_succ shorter
  · cases h

/-- The element of an array with all its dimensions taken off, and any other type itself. -/
def innermost (t : SlotType) : SlotType :=
  match _h : t.component? with
  | some component => component.innermost
  | none => t
termination_by t.nameLength
decreasing_by exact nameLength_component? ‹_›

theorem innermost_of_component? {t component : SlotType} (h : t.component? = some component) :
    t.innermost = component.innermost := by
  rw [innermost]
  split
  · next he => rw [Option.some.inj (he.symm.trans h)]
  · next he => cases he.symm.trans h

theorem innermost_of_component?_eq_none {t : SlotType} (h : t.component? = none) :
    t.innermost = t := by
  rw [innermost]
  split
  · next he => cases h.symm.trans he
  · rfl

/-- An object has no components. -/
private theorem component?_reference_of_isObject {cs : List Char} (h : ClassName.isObject cs) :
    (reference (String.ofList cs)).component? = none := by
  have letter : ClassName.componentLetter? cs = none := by
    refine Option.eq_none_iff_forall_ne_some.2 fun letter he => ?_
    rw [(ClassName.isArray_of_componentLetter? he).2] at h
    cases h
  rw [component?, String.toList_ofList, letter, ClassName.component?_of_isObject h]
  rfl

/-- Arrays of objects are taken apart as their names are. -/
theorem innermost_reference {cs : List Char} (h : ClassName.isObject (ClassName.element cs)) :
    (reference (String.ofList cs)).innermost =
      reference (String.ofList (ClassName.element cs)) := by
  fun_induction ClassName.element cs with
  | case1 cs component taken ih =>
    have references := ClassName.hasReferenceComponent_of_component? taken
    have outer : (reference (String.ofList cs)).component? =
        some (reference (String.ofList component)) := by
      rw [component?_eq (by rwa [String.toList_ofList]), String.toList_ofList, taken]
      rfl
    rw [innermost_of_component? outer, ih h]
  | case2 cs _ => exact innermost_of_component?_eq_none (component?_reference_of_isObject h)

end SlotType

/-- Puppies are dogs and dogs are animals; pets are anything. -/
def animals : Resolver := fun name =>
  if name = "Puppy" then .known (.subclassOf "Dog")
  else if name = "Dog" then .known (.subclassOf "Animal")
  else if name = "Animal" then .known (.subclassOf ClassName.object)
  else if name = "Pet" then .known .interface
  else .unknown

/-- How many superclasses can be found from a name on. -/
private def rank (name : String) : Nat :=
  if name = "Puppy" then 3
  else if name = "Dog" then 2
  else if name = "Animal" ∨ name = "Pet" then 1
  else 0

private theorem animals_known {name : String} {info : ClassInfo}
    (known : animals name = .known info) :
    (info.isInterface → name = "Pet" ∧ info.superclass = some ClassName.object) ∧
      ∀ superclass, info.superclass = some superclass → rank superclass < rank name := by
  unfold animals at known
  split_ifs at known with puppy dog animal pet
  all_goals
    cases known
    subst name
    refine ⟨by decide, ?_⟩
    rintro _ ⟨⟩
    decide

private theorem animals_isHierarchy : animals.IsHierarchy := by
  have low (name : String) : rank name ≤ 3 := by
    unfold rank
    split_ifs <;> decide
  refine ⟨by decide, fun name info known interface => ?_, fun k name target up => ?_⟩
  · exact .inr ((animals_known known).1 interface).2
  · have steps := Resolver.length_le_of_ancestor? (fun _ _ known => (animals_known known).2) up
    exact Nat.lt_of_le_of_lt (Nat.le_trans steps (low name)) (by decide)

namespace SlotType

/-- What may stand for a type that may itself stand for the expected one may also do so directly,
and that is found out without a failure. The expected type is no interface and not made of
interfaces, the two that arrays have excepted. -/
theorem accepts_trans_of_innermost {r : Resolver} (hierarchy : r.IsHierarchy) {a b c : SlotType}
    (exact : ∀ name, a.innermost = .reference name → r.IsExact name)
    (hab : (a.accepts b).run r = .ok true) (hbc : (b.accepts c).run r = .ok true) :
    (a.accepts c).run r = .ok true := by
  refine accepts_trans hierarchy ?_ hab hbc
  rintro name rfl object
  refine exact _ ?_
  rw [← innermost_reference object, String.ofList_toList]

theorem accepts_trans_of_innermost_animals :
    let animal := reference "[[LAnimal;"
    let dog := reference "[[LDog;"
    let puppy := reference "[[LPuppy;"
    animals.IsHierarchy ∧ (∀ name, animal.innermost = .reference name → animals.IsExact name) ∧
      (animal.accepts dog).run animals = .ok true ∧
      (dog.accepts puppy).run animals = .ok true ∧
      (animal.accepts puppy).run animals = .ok true := by
  have exact (name : String) (named : (reference "[[LAnimal;").innermost = .reference name) :
      animals.IsExact name := by
    have innermost : (reference "[[LAnimal;").innermost = .reference "Animal" := by decide +kernel
    cases innermost.symm.trans named
    exact fun info known interface =>
      absurd ((animals_known known).1 interface).1 (by decide)
  have upper : ((reference "[[LAnimal;").accepts (reference "[[LDog;")).run animals = .ok true := by
    decide +kernel
  have lower : ((reference "[[LDog;").accepts (reference "[[LPuppy;")).run animals = .ok true := by
    decide +kernel
  exact ⟨animals_isHierarchy, exact, upper, lower,
    accepts_trans_of_innermost animals_isHierarchy exact upper lower⟩

/-- An interface takes an object but not an array, though the object may be one. -/
example : ((reference "Pet").accepts (reference ClassName.object)).run animals = .ok true ∧
    ((reference ClassName.object).accepts (reference "[I")).run animals = .ok true ∧
    ((reference "Pet").accepts (reference "[I")).run animals = .ok false := by
  decide +kernel

end SlotType
end ClassVerifier
