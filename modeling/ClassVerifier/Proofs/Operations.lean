import ClassVerifier.Execution
import ClassVerifier.Proofs.FrameLocals
import ClassVerifier.Proofs.InitializedTypes

/-! What each operation of the instruction set does to a frame when it succeeds: which slots it
takes off, what it asked of them, and which it puts on. -/
namespace ClassVerifier.Body
open ClassVerifier.Frame
variable {r : Resolver} {m : Body} {f g : Frame}

theorem load_number {kind : NumberKind} {index : Nat} (hf : f.Regular)
    (h : (load (.number kind) index f).run r = .ok g) :
    ∃ t, f.locals[index]? = some t ∧ (kind.type.accepts t).run r = .ok true ∧
      f.Moves [] kind.slots.reverse g := by
  obtain ⟨f', hl, hp⟩ := Check.bind_ok.1 h
  have read : f' = f ∧ ∃ t, f.locals[index]? = some t ∧
      (kind.type.accepts t).run r = .ok true := by
    unfold loadNumber at hl
    split at hl
    · obtain ⟨_, hl, he⟩ := Check.bind_ok.1 hl
      obtain ⟨_, ⟨t, ht, ha⟩, _⟩ := loadPair_ok_iff.1 hl
      exact ⟨(Check.pure_ok.1 he).symm, t, ht, ha⟩
    · obtain ⟨⟨t, g'⟩, hl, he⟩ := Check.bind_ok.1 hl
      have htop : (kind.type.accepts .top).run r ≠ .ok true := by
        cases kind <;> simp [NumberKind.type, SlotType.accepts]
      obtain ⟨same, ht, ha⟩ := load_ok hf htop hl
      exact ⟨(Check.pure_ok.1 he).symm.trans same, t, ht, ha⟩
  obtain ⟨rfl, t, ht, ha⟩ := read
  exact ⟨t, ht, ha, pushAll_moves (Check.lift_ok.1 hp)⟩

theorem load_reference {index : Nat} (hf : f.Regular)
    (h : (load .reference index f).run r = .ok g) :
    ∃ t, f.locals[index]? = some t ∧ (SlotType.anyReference.accepts t).run r = .ok true ∧
      f.Moves [] [t] g := by
  obtain ⟨⟨t, f'⟩, hl, hp⟩ := Check.bind_ok.1 h
  obtain ⟨rfl, ht, ha⟩ := load_ok hf (by simp [SlotType.accepts, SlotType.isReference,
    SlotType.isUninitialized]) hl
  exact ⟨t, ht, ha, push_moves (Check.lift_ok.1 hp)⟩

theorem store_number {kind : NumberKind} {index : Nat}
    (h : (store (.number kind) index f).run r = .ok g) :
    ∃ popped f', Accepted r kind.slots.reverse popped ∧ f.Moves popped [] f' ∧
      (f'.store index kind.type).run r = .ok g := by
  obtain ⟨f', hp, hs⟩ := Check.bind_ok.1 h
  obtain ⟨popped, ha, hm⟩ := popAll_moves hp
  exact ⟨popped, f', ha, hm, hs⟩

theorem store_reference {index : Nat} (h : (store .reference index f).run r = .ok g) :
    ∃ t f', (SlotType.anyReference.accepts t).run r = .ok true ∧ f.Moves [t] [] f' ∧
      (f'.store index t).run r = .ok g := by
  obtain ⟨⟨t, f'⟩, hp, hs⟩ := Check.bind_ok.1 h
  obtain ⟨ha, hm⟩ := popExpected_moves hp
  exact ⟨t, f', ha, hm, hs⟩

/-- The local stays an integer, so nothing changes. -/
theorem increment_ok {index : Nat} (hf : f.Regular) (h : (increment index f).run r = .ok g) :
    g = f := by
  obtain ⟨⟨t, f'⟩, hl, hs⟩ := Check.bind_ok.1 h
  obtain ⟨rfl, ht, ha⟩ := load_ok hf (by simp [SlotType.accepts]) hl
  obtain rfl : t = .integer := by
    cases t <;> simp [SlotType.accepts] at ha
    rfl
  have hu : index + 1 ≤ f'.used := by
    rcases Nat.lt_or_ge index f'.used with hu | hu
    · exact hu
    · cases hf.unused index _ hu ht
  obtain ⟨_, rfl⟩ := store_ok hs
  change { f' with
    locals := overwrite f'.locals index [.integer], used := max f'.used (index + 1) } = f'
  rw [overwrite_self ht rfl rfl, Nat.max_eq_left hu]

theorem popArray_moves {kind : ElementKind} {array : SlotType}
    (h : (popArray kind f).run r = .ok (array, g)) :
    ∃ index, Accepted r [.integer, .anyReference] [index, array] ∧
      kind.isElementOf array ∧ f.Moves [index, array] [] g := by
  obtain ⟨⟨index, f'⟩, hi, h⟩ := Check.bind_ok.1 h
  obtain ⟨⟨array', f''⟩, ha, h⟩ := Check.bind_ok.1 h
  obtain ⟨_, hk, h⟩ := Check.bind_ok.1 h
  cases Check.pure_ok.1 h
  obtain ⟨hi, hmi⟩ := popExpected_moves hi
  obtain ⟨ha, hma⟩ := popExpected_moves ha
  exact ⟨index, .cons hi (.cons ha .nil), Check.require_ok.1 hk, hmi.pop hma⟩

private theorem elementType_initialized {array t : SlotType} (h : elementType array = .ok t) :
    t.isUninitialized = false := by
  unfold elementType at h
  split at h
  · cases h
    rfl
  · cases hc : array.component? with
    | none => simp [hc] at h
    | some t' =>
      rw [hc] at h
      cases h
      exact SlotType.component?_initialized hc

theorem arrayLoad_moves {kind : ElementKind} (h : (arrayLoad kind f).run r = .ok g) :
    ∃ index array pushed, Accepted r [.integer, .anyReference] [index, array] ∧
      kind.isElementOf array ∧ AllInitialized pushed ∧ f.Moves [index, array] pushed g := by
  obtain ⟨⟨array, f'⟩, ha, h⟩ := Check.bind_ok.1 h
  obtain ⟨index, ha, hk, hm⟩ := popArray_moves ha
  have number (h : (liftM (f'.pushAll kind.slots) : Check Frame).run r = .ok g) :
      ∃ pushed, AllInitialized pushed ∧ f'.Moves [] pushed g :=
    ⟨_, (AllInitialized.element kind).reverse, pushAll_moves (Check.lift_ok.1 h)⟩
  have pushed : ∃ pushed, AllInitialized pushed ∧ f'.Moves [] pushed g := by
    cases kind with
    | reference =>
      obtain ⟨t, ht, h⟩ := Check.bind_ok.1 h
      have ht := elementType_initialized (Check.lift_ok.1 ht)
      exact ⟨[t], .singleton ht, push_moves (Check.lift_ok.1 h)⟩
    | _ => exact number h
  obtain ⟨pushed, hi, hp⟩ := pushed
  exact ⟨index, array, pushed, ha, hk, hi, by simpa using hm.push hp⟩

theorem arrayStore_moves {kind : ElementKind} (h : (arrayStore kind f).run r = .ok g) :
    ∃ elements index array, Accepted r kind.slots.reverse elements ∧
      Accepted r [.integer, .anyReference] [index, array] ∧ kind.isElementOf array ∧
      f.Moves (elements ++ [index, array]) [] g := by
  obtain ⟨f', hp, h⟩ := Check.bind_ok.1 h
  obtain ⟨⟨array, f''⟩, ha, h⟩ := Check.bind_ok.1 h
  cases Check.pure_ok.1 h
  obtain ⟨elements, he, hme⟩ := popAll_moves hp
  obtain ⟨index, ha, hk, hma⟩ := popArray_moves ha
  exact ⟨elements, index, array, he, ha, hk, hme.pop hma⟩

theorem arrayLength_moves (h : (arrayLength f).run r = .ok g) :
    ∃ array, (SlotType.anyReference.accepts array).run r = .ok true ∧
      (array = .null ∨ array.isArray) ∧ f.Moves [array] [.integer] g := by
  obtain ⟨⟨array, f'⟩, ha, h⟩ := Check.bind_ok.1 h
  obtain ⟨_, hk, hp⟩ := Check.bind_ok.1 h
  obtain ⟨ha, hm⟩ := popExpected_moves ha
  exact ⟨array, ha, by simpa using hk, hm.push (push_moves (Check.lift_ok.1 hp))⟩

theorem duplicate_moves {count under : Nat} (h : (duplicate count under f).run r = .ok g) :
    ∃ upper lower, f.Moves (upper ++ lower) (upper ++ lower ++ upper) g := by
  obtain ⟨⟨upper, f'⟩, hu, h⟩ := Check.bind_ok.1 h
  obtain ⟨⟨lower, f''⟩, hl, h⟩ := Check.bind_ok.1 h
  have hp := pushAll_moves (Check.lift_ok.1 h)
  rw [List.reverse_reverse] at hp
  have hm := ((popSlots_moves hu).pop (popSlots_moves hl)).push hp
  rw [List.append_nil] at hm
  exact ⟨upper, lower, hm⟩

theorem swap_moves (h : (swap f).run r = .ok g) :
    ∃ upper lower, f.Moves (upper ++ lower) (upper ++ lower).reverse g := by
  obtain ⟨⟨upper, f'⟩, hu, h⟩ := Check.bind_ok.1 h
  obtain ⟨⟨lower, f''⟩, hl, h⟩ := Check.bind_ok.1 h
  have hm := ((popSlots_moves hu).pop (popSlots_moves hl)).push (pushAll_moves (Check.lift_ok.1 h))
  rw [List.append_nil] at hm
  exact ⟨upper, lower, hm⟩

theorem loadConstant_moves {index : UInt16} {wide : Bool}
    (h : m.loadConstant index wide f = .ok g) :
    ∃ pushed, AllInitialized pushed ∧ f.Moves [] pushed g := by
  obtain ⟨kind, _, h⟩ := except_bind_ok.1 h
  obtain ⟨slots, hs, h⟩ := except_bind_ok.1 h
  refine ⟨slots.reverse, AllInitialized.reverse ?_, pushAll_moves h⟩
  cases kind with
  | dynamic =>
    obtain ⟨descriptor, _, hs⟩ := except_bind_ok.1 hs
    dsimp only at hs
    split at hs
    · simp at hs
    · obtain ⟨_, rfl⟩ := except_ite_ok.1 hs
      exact .slotsOf _
  | string | classRef | integer | float | methodHandle | methodType =>
    cases hs
    exact .singleton rfl
  | long | double =>
    cases hs
    exact .slots rfl
  | _ => simp [constantSlots] at hs

theorem checkSwitch_moves {table : Switch} (h : (m.checkSwitch table f).run r = .ok g) :
    ∃ popped, Accepted r [.integer] popped ∧ f.Moves popped [] g := by
  obtain ⟨_, _, h⟩ := Check.bind_ok.1 h
  obtain ⟨f', hp, h⟩ := Check.bind_ok.1 h
  obtain ⟨_, _, h⟩ := Check.bind_ok.1 h
  cases Check.pure_ok.1 h
  exact popAll_moves hp

theorem returnValue_moves {kind : ValueKind} (h : (m.returnValue kind f).run r = .ok g) :
    ∃ popped, f.Moves popped [] g := by
  have rest {type : SlotType} {f' : Frame}
      (h : (do
        .require (m.resultType ≠ .bogus) .unexpectedReturnValue
        .require (← m.resultType.accepts type) .badReturnType
        return f' : Check Frame).run r = .ok g) : f' = g := by
    simp only [Check.bind_ok, Check.pure_ok] at h
    obtain ⟨_, _, _, _, _, _, he⟩ := h
    exact he
  cases kind with
  | number number =>
    obtain ⟨f', hp, h⟩ := Check.bind_ok.1 h
    obtain ⟨_, hq, h⟩ := Check.bind_ok.1 h
    cases Check.pure_ok.1 hq
    obtain ⟨popped, _, hm⟩ := popAll_moves hp
    exact ⟨popped, rest h ▸ hm⟩
  | reference =>
    obtain ⟨⟨t, f'⟩, hp, h⟩ := Check.bind_ok.1 h
    exact ⟨[t], rest h ▸ (popExpected_moves hp).2⟩

/-- A constructor has settled its receiver when it returns. -/
theorem returnVoid_ok (h : m.returnVoid f = .ok g) :
    g = f ∧ (m.method.isConstructor → f.thisPending = false) := by
  unfold returnVoid at h
  split at h
  · simp at h
  · split at h
    · simp at h
    · next hn =>
      cases h
      refine ⟨rfl, fun hc => ?_⟩
      simpa [hc] using hn

theorem classType_ok {index : UInt16} {type : SlotType} (h : m.classType index = .ok type) :
    ∃ name, m.owner.pool.className index = .ok name ∧ type = .reference name := by
  obtain ⟨_, _, h⟩ := except_bind_ok.1 h
  obtain ⟨name, hn, h⟩ := except_bind_ok.1 h
  cases h
  exact ⟨name, hn, rfl⟩

theorem allocate_moves {index : UInt16} (h : m.allocate index f = .ok g) :
    f.Moves [] [.uninitialized f.offset] g := by
  obtain ⟨type, _, h⟩ := except_bind_ok.1 h
  split at h
  · exact push_moves h
  · simp at h

theorem newArray_moves {code : UInt8} (h : (newArray code f).run r = .ok g) :
    ∃ name popped, Accepted r [.integer] popped ∧ f.Moves popped [.reference name] g := by
  obtain ⟨name, _, h⟩ := Check.bind_ok.1 h
  obtain ⟨f', hp, h⟩ := Check.bind_ok.1 h
  obtain ⟨popped, ha, hm⟩ := popAll_moves hp
  exact ⟨name, popped, ha, hm.push (push_moves (Check.lift_ok.1 h))⟩

theorem newReferenceArray_moves {index : UInt16}
    (h : (m.newReferenceArray index f).run r = .ok g) :
    ∃ name popped, Accepted r [.integer] popped ∧ f.Moves popped [.reference name] g := by
  obtain ⟨_, _, h⟩ := Check.bind_ok.1 h
  obtain ⟨name, _, h⟩ := Check.bind_ok.1 h
  obtain ⟨f', hp, h⟩ := Check.bind_ok.1 h
  obtain ⟨_, _, h⟩ := Check.bind_ok.1 h
  obtain ⟨popped, ha, hm⟩ := popAll_moves hp
  exact ⟨_, popped, ha, hm.push (push_moves (Check.lift_ok.1 h))⟩

theorem newMultiArray_moves {index : UInt16} {dimensions : Nat}
    (h : (m.newMultiArray index dimensions f).run r = .ok g) :
    ∃ name popped, Accepted r (List.replicate dimensions .integer) popped ∧
      f.Moves popped [.reference name] g := by
  obtain ⟨type, ht, h⟩ := Check.bind_ok.1 h
  obtain ⟨_, _, h⟩ := Check.bind_ok.1 h
  obtain ⟨_, _, h⟩ := Check.bind_ok.1 h
  obtain ⟨f', hp, h⟩ := Check.bind_ok.1 h
  obtain ⟨name, _, rfl⟩ := classType_ok (Check.lift_ok.1 ht)
  obtain ⟨popped, ha, hm⟩ := popAll_moves hp
  rw [List.reverse_replicate] at ha
  exact ⟨name, popped, ha, hm.push (push_moves (Check.lift_ok.1 h))⟩

theorem testObject_moves {index : UInt16} {result : SlotType → SlotType}
    (h : (m.testObject index result f).run r = .ok g) :
    ∃ name popped, Accepted r [.reference ClassName.object] popped ∧
      f.Moves popped [result (.reference name)] g := by
  obtain ⟨type, ht, h⟩ := Check.bind_ok.1 h
  obtain ⟨f', hp, h⟩ := Check.bind_ok.1 h
  obtain ⟨name, _, rfl⟩ := classType_ok (Check.lift_ok.1 ht)
  obtain ⟨popped, ha, hm⟩ := popAll_moves hp
  exact ⟨name, popped, ha, hm.push (push_moves (Check.lift_ok.1 h))⟩

end ClassVerifier.Body
