import ClassVerifier.Instruction

/-! Types that are never those of an object whose constructor has not run: what descriptors, numbers
and array elements denote. -/
namespace ClassVerifier

/-- None of the types is uninitialized. -/
def AllInitialized (types : List SlotType) : Prop := ∀ t ∈ types, t.isUninitialized = false

namespace AllInitialized

theorem nil : AllInitialized [] := by
  intro t ht
  simp at ht

theorem singleton {t : SlotType} (h : t.isUninitialized = false) : AllInitialized [t] := by
  intro s hs
  rw [List.mem_singleton.1 hs]
  exact h

theorem reverse {types : List SlotType} (h : AllInitialized types) :
    AllInitialized types.reverse := fun t ht => h t (List.mem_reverse.1 ht)

theorem slots {t : SlotType} (h : t.isUninitialized = false) : AllInitialized t.slots := by
  intro s hs
  rcases List.mem_cons.1 hs with rfl | hs
  · exact h
  · cases t <;> simp [SlotType.second?] at hs <;> rw [hs] <;> rfl

theorem slotsOf (type : FieldType) : AllInitialized (SlotType.slotsOf type) := by
  apply slots
  cases type with
  | primitive kind => cases kind <;> rfl
  | object name => rfl
  | array component => rfl

theorem number (kind : NumberKind) : AllInitialized kind.slots := by
  apply slots
  cases kind <;> rfl

theorem element (kind : ElementKind) : AllInitialized kind.slots := by
  cases kind with
  | number kind => exact number kind
  | _ => exact singleton rfl

end AllInitialized

/-- No element of an array is uninitialized. -/
theorem SlotType.component?_initialized {array t : SlotType} (h : array.component? = some t) :
    t.isUninitialized = false := by
  cases array with
  | reference name =>
    rw [component?] at h
    split at h
    case h_9 =>
      obtain ⟨_, _, rfl⟩ := Option.map_eq_some_iff.1 h
      rfl
    all_goals
      cases h
      rfl
  | _ => simp [component?] at h

end ClassVerifier
