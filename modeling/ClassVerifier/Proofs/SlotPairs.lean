import ClassVerifier.Instruction

/-! Lists of slots in which every long and every double keeps its two slots together. -/
namespace ClassVerifier

namespace SlotType

/-- A type that a slot can have; the others only say what is expected of a slot. -/
def isActual : SlotType → Bool
  | bogus | anySingle | anyDouble | anyReference => false
  | _ => true

theorem isActual_of_isSingle {t : SlotType} (h : t.isSingle) : t.isActual := by
  cases t with
  | bogus | anySingle | anyDouble | anyReference => cases h
  | _ => rfl

theorem isActual_of_isFirst {t : SlotType} (h : t.isFirst) : t.isActual := by
  cases t with
  | long | double => rfl
  | _ => cases h

/-- A reference, whether or not to an object that is initialized. -/
theorem isSingle_of_reference {t : SlotType} (h : t.isReference || t.isUninitialized) :
    t.isSingle := by
  cases t with
  | null | reference | uninitialized | uninitializedThis => rfl
  | _ => cases h

theorem isSecond_of_second? {t s : SlotType} (h : t.second? = some s) : s.isSecond := by
  cases t <;> cases h <;> rfl

theorem isFirst_iff {t : SlotType} : t.isFirst ↔ ∃ s, t.second? = some s := by
  cases t <;> simp [isFirst, second?]

end SlotType

/-- Every first slot of a long or double has its second slot right behind it, and every second slot
has its first one right before it. -/
structure Paired (slots : List SlotType) : Prop where
  followed : ∀ k t s, slots[k]? = some t → t.second? = some s → slots[k + 1]? = some s
  preceded : ∀ k s, slots[k]? = some s → s.isSecond →
    ∃ j t, k = j + 1 ∧ slots[j]? = some t ∧ t.second? = some s

/-- Neither slot of a long or double. -/
def SlotType.IsWhole (t : SlotType) : Prop := t.second? = none ∧ t.isSecond = false

theorem SlotType.IsWhole.of_isSingle {t : SlotType} (h : t.isSingle) : t.IsWhole := by
  cases t with
  | long | longSecond | double | doubleSecond => cases h
  | _ => exact ⟨rfl, rfl⟩

namespace Paired
variable {a b : List SlotType} {t : SlotType}

theorem nil : Paired [] := ⟨nofun, nofun⟩

theorem append (ha : Paired a) (hb : Paired b) : Paired (a ++ b) := by
  constructor
  · intro k t s hk hs
    rcases Nat.lt_or_ge k a.length with hlt | hge
    · rw [List.getElem?_append_left hlt] at hk
      have hnext := ha.followed k t s hk hs
      rwa [List.getElem?_append_left (List.getElem?_eq_some_iff.1 hnext).1]
    · rw [List.getElem?_append_right hge] at hk
      rw [List.getElem?_append_right (by omega), Nat.sub_add_comm hge]
      exact hb.followed _ t s hk hs
  · intro k s hk hs
    rcases Nat.lt_or_ge k a.length with hlt | hge
    · rw [List.getElem?_append_left hlt] at hk
      obtain ⟨j, t, rfl, ht, hts⟩ := ha.preceded k s hk hs
      exact ⟨j, t, rfl, by rwa [List.getElem?_append_left (by omega)], hts⟩
    · rw [List.getElem?_append_right hge] at hk
      obtain ⟨j, t, hj, ht, hts⟩ := hb.preceded _ s hk hs
      refine ⟨j + a.length, t, by omega, ?_, hts⟩
      rwa [List.getElem?_append_right (by omega), Nat.add_sub_cancel]

/-- What is left when whole values are taken off the end. -/
theorem of_append (h : Paired (a ++ b)) (hb : Paired b) : Paired a := by
  constructor
  · intro k t s hk hs
    have hlt := (List.getElem?_eq_some_iff.1 hk).1
    have hnext := h.followed k t s (by rwa [List.getElem?_append_left hlt]) hs
    rcases Nat.lt_or_ge (k + 1) a.length with hin | hout
    · rwa [List.getElem?_append_left hin] at hnext
    · rw [List.getElem?_append_right hout] at hnext
      obtain ⟨j, _, hj, _⟩ := hb.preceded _ s hnext (SlotType.isSecond_of_second? hs)
      omega
  · intro k s hk hs
    have hlt := (List.getElem?_eq_some_iff.1 hk).1
    obtain ⟨j, t, rfl, ht, hts⟩ := h.preceded k s (by rwa [List.getElem?_append_left hlt]) hs
    exact ⟨j, t, rfl, by rwa [List.getElem?_append_left (by omega)] at ht, hts⟩

theorem of_whole (h : ∀ t ∈ a, t.IsWhole) : Paired a := by
  constructor
  · intro k t s hk hs
    rw [(h t (List.mem_of_getElem? hk)).1] at hs
    cases hs
  · intro k s hk hs
    rw [(h s (List.mem_of_getElem? hk)).2] at hs
    cases hs

theorem singleton (h : t.IsWhole) : Paired [t] :=
  of_whole fun _ hs => List.mem_singleton.1 hs ▸ h

theorem slots (h : t.isSecond = false) : Paired t.slots := by
  cases hs : t.second? with
  | none =>
    rw [SlotType.slots, hs]
    exact singleton ⟨hs, h⟩
  | some s =>
    rw [SlotType.slots, hs, Option.toList_some]
    have last : s.second? = none := by
      cases t <;> cases hs <;> rfl
    constructor
    · rintro (_ | _ | k) t' s' hk hs'
      · cases hk
        exact hs.symm.trans hs'
      · cases hk
        rw [last] at hs'
        cases hs'
      · cases hk
    · rintro (_ | _ | k) s' hk hs'
      · cases hk
        rw [h] at hs'
        cases hs'
      · cases hk
        exact ⟨0, t, rfl, rfl, hs⟩
      · cases hk

theorem flatMap_slots {types : List SlotType} (h : ∀ t ∈ types, t.isSecond = false) :
    Paired (types.flatMap SlotType.slots) := by
  induction types with
  | nil => exact nil
  | cons t types ih =>
    obtain ⟨ht, h⟩ := List.forall_mem_cons.1 h
    exact (slots ht).append (ih h)

/-- An object takes the place of what was not initialized, which is no half of a value. -/
theorem replace {old : SlotType} {name : String} (h : Paired a)
    (uninitialized : old.isUninitialized) :
    Paired (a.map fun t => if t = old then .reference name else t) := by
  have half {t : SlotType} (ht : t.second?.isSome ∨ t.isSecond) : t ≠ old := by
    rintro rfl
    cases t <;> cases uninitialized <;> rcases ht with ht | ht <;> cases ht
  have before {k : Nat} {t : SlotType} (ht : t.second?.isSome ∨ t.isSecond)
      (hk : (a.map fun t => if t = old then .reference name else t)[k]? = some t) :
      a[k]? = some t := by
    rw [List.getElem?_map] at hk
    obtain ⟨u, hu, he⟩ := Option.map_eq_some_iff.1 hk
    split at he
    · subst he
      rcases ht with ht | ht <;> cases ht
    · exact he ▸ hu
  have after {k : Nat} {t : SlotType} (ht : t.second?.isSome ∨ t.isSecond)
      (hk : a[k]? = some t) :
      (a.map fun t => if t = old then .reference name else t)[k]? = some t := by
    rw [List.getElem?_map, hk, Option.map_some, if_neg (half ht)]
  constructor
  · intro k t u hk hu
    have first : t.second?.isSome ∨ t.isSecond := .inl (hu ▸ rfl)
    exact after (.inr (SlotType.isSecond_of_second? hu)) (h.followed k t u (before first hk) hu)
  · intro k u hk hu
    obtain ⟨j, t, rfl, ht, htu⟩ := h.preceded k u (before (.inr hu) hk) hu
    exact ⟨j, t, rfl, after (.inl (htu ▸ rfl)) ht, htu⟩

/-- The first slot of a value comes before a second slot at the end. -/
theorem concat_second (h : Paired (a ++ [t])) (ht : t.isSecond) :
    ∃ rest s, a = rest ++ [s] ∧ s.second? = some t := by
  obtain ⟨j, s, hj, hs, hst⟩ := h.preceded a.length t (by simp) ht
  have last : a[a.length - 1]? = some s := by
    rw [List.getElem?_append_left (by omega)] at hs
    rwa [show a.length - 1 = j by omega]
  rw [← List.getLast?_eq_getElem?] at last
  obtain ⟨rest, rfl⟩ := List.getLast?_eq_some_iff.1 last
  exact ⟨rest, s, rfl, hst⟩

/-- Nothing is left open at the end. -/
theorem concat_not_second (h : Paired (a ++ [t])) (ht : t.isSecond = false) : t.IsWhole := by
  refine ⟨?_, ht⟩
  cases hs : t.second? with
  | none => rfl
  | some s =>
    have next := h.followed a.length t s (by simp) hs
    simp at next

theorem singleton_iff : Paired [t] ↔ t.IsWhole := by
  refine ⟨fun h => ?_, singleton⟩
  rw [← List.nil_append [t]] at h
  by_cases ht : t.isSecond
  · obtain ⟨rest, s, he, _⟩ := h.concat_second ht
    simp at he
  · exact h.concat_not_second (Bool.not_eq_true _ ▸ ht)

/-- Two slots are two whole ones, or they belong together. -/
theorem pair_iff {s : SlotType} : Paired [s, t] ↔ s.IsWhole ∧ t.IsWhole ∨ s.second? = some t := by
  constructor
  · intro h
    rw [← List.singleton_append] at h
    by_cases ht : t.isSecond
    · obtain ⟨rest, first, he, hs⟩ := h.concat_second ht
      cases (List.append_inj' (show [] ++ [s] = rest ++ [first] from he) rfl).2
      exact .inr hs
    · have whole := h.concat_not_second (Bool.not_eq_true _ ▸ ht)
      exact .inl ⟨singleton_iff.1 (h.of_append (singleton whole)), whole⟩
  · rintro (⟨hs, ht⟩ | hs)
    · exact .of_whole (List.forall_mem_cons.2 ⟨hs, List.forall_mem_singleton.2 ht⟩)
    · have pair := slots (t := s) (by cases s <;> cases hs <;> rfl)
      rwa [SlotType.slots, hs] at pair

/-- The end of a list has whole values only if it does not begin amid one. -/
theorem end_iff (h : Paired (a ++ b)) : Paired b ↔
    ∀ s t, a.getLast? = some s → b.head? = some t → s.second? ≠ some t := by
  constructor
  · intro hb s t _ ht hs
    rw [List.head?_eq_getElem?] at ht
    obtain ⟨j, _, hj, _⟩ := hb.preceded 0 t ht (SlotType.isSecond_of_second? hs)
    cases hj
  · intro cut
    constructor
    · intro k t s hk hs
      have next := h.followed (a.length + k) t s (by rwa [List.getElem?_append_right (by omega),
        Nat.add_sub_cancel_left]) hs
      rwa [List.getElem?_append_right (by omega), Nat.add_assoc, Nat.add_sub_cancel_left] at next
    · intro k s hk hs
      obtain ⟨j, t, hj, ht, hts⟩ := h.preceded (a.length + k) s (by
        rwa [List.getElem?_append_right (by omega), Nat.add_sub_cancel_left]) hs
      cases k with
      | zero =>
        rw [List.getElem?_append_left (by omega)] at ht
        rw [← List.head?_eq_getElem?] at hk
        refine absurd hts (cut t s ?_ hk)
        rwa [List.getLast?_eq_getElem?, show a.length - 1 = j by omega]
      | succ k =>
        obtain rfl : j = a.length + k := by omega
        rw [List.getElem?_append_right (by omega), Nat.add_sub_cancel_left] at ht
        exact ⟨k, t, rfl, ht, hts⟩

end Paired
end ClassVerifier
