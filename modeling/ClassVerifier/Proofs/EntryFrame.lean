import ClassVerifier.Proofs.FrameFlow
import ClassVerifier.Proofs.InitializedTypes

/-! The frame that a method begins with. It is regular, and of what is not initialized it holds
nothing but the receiver, and that only in the constructors of all classes but the root. -/
namespace ClassVerifier.Frame
variable {f : Frame} {t : SlotType}

theorem length_usedLocals (hf : f.Regular) : f.usedLocals.length = f.used := by
  have := hf.used_le
  have := hf.size_eq
  simp only [Frame.usedLocals, Array.length_toList, Array.size_extract]
  omega

theorem mem_locals_of_used {t : SlotType} (h : t ∈ f.usedLocals) : t ∈ f.locals := by
  obtain ⟨k, hk⟩ := List.mem_iff_getElem?.1 h
  rw [Frame.usedLocals, Array.getElem?_toList, Array.getElem?_extract] at hk
  split at hk
  · exact Array.mem_of_getElem? hk
  · cases hk

theorem Regular.mem_usedLocals (hf : f.Regular) (ht : t ≠ .top) (h : t ∈ f.locals) :
    t ∈ f.usedLocals := by
  obtain ⟨k, hk⟩ := Array.mem_iff_getElem?.1 h
  have hu : k < f.used := Nat.lt_of_not_le fun hle => ht (hf.unused k t hle hk)
  have hs := (Array.getElem?_eq_some_iff.1 hk).1
  rw [usedLocals, Array.mem_toList_iff, Array.mem_iff_getElem?]
  refine ⟨k, ?_⟩
  rw [Array.getElem?_extract, if_pos (by omega), Nat.zero_add, hk]

/-- A frame whose locals were filled up has those locals in use, and is regular. -/
theorem padded_regular {locals : List SlotType} (hl : f.locals = padded f.maxLocals locals)
    (hu : f.used = locals.length) (hle : locals.length ≤ f.maxLocals) :
    f.Regular ∧ f.usedLocals = locals := by
  have filled : f.locals =
      locals.toArray ++ Array.replicate (f.maxLocals - locals.length) .top := by
    rw [hl, padded, List.take_of_length_le hle]
  have size : f.locals.size = f.maxLocals := by
    rw [filled, Array.size_append, List.size_toArray, Array.size_replicate]
    omega
  refine ⟨⟨size, hu ▸ hle, fun k t hk ht => ?_⟩, ?_⟩
  · rw [filled, Array.getElem?_append_right (by rw [List.size_toArray]; omega)] at ht
    exact Array.eq_of_mem_replicate (Array.mem_of_getElem? ht)
  · rw [usedLocals, filled, hu]
    simp

variable {m : Method} {name : String} {maxLocals maxStack : Nat} {result : SlotType}

private theorem mem_entryLocals {type : MethodType} {t : SlotType} (ht : t.isUninitialized)
    (h : t ∈ entryLocals m (.reference name) type) :
    t = .uninitializedThis ∧ (m.isStatic = false ∧ m.isConstructor ∧ name ≠ ClassName.object) := by
  rcases List.mem_append.1 h with h | h
  · split at h
    · cases h
    · next hs =>
      split at h
      · next hc =>
        rw [Bool.and_eq_true, decide_eq_true_eq] at hc
        refine ⟨List.mem_singleton.1 h, by simpa using hs, hc.1, fun he => hc.2 ?_⟩
        rw [he]
        rfl
      · rw [List.mem_singleton.1 h] at ht
        cases ht
  · obtain ⟨parameter, _, h⟩ := List.mem_flatMap.1 h
    rw [AllInitialized.slotsOf parameter t h] at ht
    cases ht

private theorem head?_entryLocals {type : MethodType} :
    (entryLocals m (.reference name) type).head? = some .uninitializedThis ↔
      m.isStatic = false ∧ m.isConstructor ∧ name ≠ ClassName.object := by
  constructor
  · intro h
    exact (mem_entryLocals rfl (List.mem_of_head? h)).2
  · rintro ⟨hs, hc, hn⟩
    simp [entryLocals, hs, hc, SlotType.name?, hn]

theorem entry_shape (h : entry m (.reference name) maxLocals maxStack = .ok (f, result)) :
    ∃ type, (entryLocals m (.reference name) type).length ≤ maxLocals ∧
      f = { empty maxLocals maxStack with
        used := (entryLocals m (.reference name) type).length
        locals := padded maxLocals (entryLocals m (.reference name) type)
        thisPending :=
          (entryLocals m (.reference name) type).head? = some .uninitializedThis } := by
  unfold entry at h
  split at h
  · cases h
  · next type _ =>
    dsimp only at h
    split at h
    · cases h
    · next room =>
      cases h
      exact ⟨type, Nat.le_of_not_lt room, rfl⟩

theorem entry_maxLocals (h : entry m (.reference name) maxLocals maxStack = .ok (f, result)) :
    f.maxLocals = maxLocals := by
  obtain ⟨type, _, rfl⟩ := entry_shape h
  rfl

theorem entry_regular (h : entry m (.reference name) maxLocals maxStack = .ok (f, result)) :
    f.Regular := by
  obtain ⟨type, room, rfl⟩ := entry_shape h
  exact (padded_regular rfl rfl room).1

theorem thisPending_entry (h : entry m (.reference name) maxLocals maxStack = .ok (f, result)) :
    f.thisPending ↔ m.isStatic = false ∧ m.isConstructor ∧ name ≠ ClassName.object := by
  obtain ⟨type, _, rfl⟩ := entry_shape h
  exact decide_eq_true_iff.trans head?_entryLocals

theorem usedLocals_entry (h : entry m (.reference name) maxLocals maxStack = .ok (f, result)) :
    .uninitializedThis ∈ f.usedLocals ↔ f.thisPending := by
  rw [thisPending_entry h]
  obtain ⟨type, room, rfl⟩ := entry_shape h
  rw [(padded_regular rfl rfl room).2]
  constructor
  · intro hu
    exact (mem_entryLocals rfl hu).2
  · intro hm
    exact List.mem_of_head? (head?_entryLocals.2 hm)

/-- The only uninitialized object is the receiver. -/
theorem holds_entry (h : entry m (.reference name) maxLocals maxStack = .ok (f, result))
    (ht : t.isUninitialized) (hold : f.Holds t) : t = .uninitializedThis ∧ f.thisPending := by
  rw [thisPending_entry h]
  have regular := entry_regular h
  obtain ⟨type, room, rfl⟩ := entry_shape h
  rcases hold with hl | hs
  · have hu := regular.mem_usedLocals (by rintro rfl; cases ht) hl
    rw [(padded_regular rfl rfl room).2] at hu
    exact mem_entryLocals ht hu
  · cases hs

end ClassVerifier.Frame
