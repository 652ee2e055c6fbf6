import ClassVerifier.Proofs.Assignability
import ClassVerifier.Proofs.Effects
import ClassVerifier.Proofs.WholeValues

/-! Every instruction that succeeds on a frame of the method leaves a frame of the method. -/
namespace ClassVerifier.Body
open StackMap (Surroundings)
variable {s : Surroundings} {m : Body} {f g : Frame} {r : Resolver} {flow : Flow} {i : Instruction}

private theorem represents_load {kind : ValueKind} {index : Nat} (h : s.Represents f)
    (loaded : (load kind index f).run r = .ok g) : s.Represents g := by
  cases kind with
  | number number =>
    obtain ⟨_, _, _, moves⟩ := load_number h.regular loaded
    have values := Values.number number
    refine h.moves moves .nil ?_ fun t ht => values.knows s t (List.mem_reverse.1 ht)
    rw [List.reverse_reverse]
    exact values.paired
  | reference =>
    obtain ⟨t, held, accepted, moves⟩ := load_reference h.regular loaded
    have whole : t.IsWhole := SlotType.IsWhole.of_accepts ⟨rfl, rfl⟩ (by simp) accepted
    refine h.moves moves .nil (.singleton whole) fun u hu => ?_
    rw [List.mem_singleton.1 hu]
    exact h.knows (.inl (Array.mem_of_getElem? held))

private theorem represents_store {kind : ValueKind} {index : Nat} (h : s.Represents f)
    (stored : (store kind index f).run r = .ok g) : s.Represents g := by
  cases kind with
  | number number =>
    obtain ⟨f', popped, stored⟩ := Check.bind_ok.1 stored
    refine (h.popAll (.number number) popped).store ?_ ?_ stored
    · cases number <;> rfl
    · exact (Values.number number).knows s _ (List.mem_cons_self ..)
  | reference =>
    obtain ⟨⟨t, f'⟩, popped, stored⟩ := Check.bind_ok.1 stored
    obtain ⟨h, whole, known⟩ := h.popReference popped
    exact h.store whole.2 known stored

private theorem represents_popArray {kind : ElementKind} {array : SlotType} (h : s.Represents f)
    (popped : (popArray kind f).run r = .ok (array, g)) :
    s.Represents g ∧ kind.isElementOf array := by
  obtain ⟨⟨index, f'⟩, hi, popped⟩ := Check.bind_ok.1 popped
  obtain ⟨⟨array', f''⟩, ha, popped⟩ := Check.bind_ok.1 popped
  obtain ⟨_, holds, popped⟩ := Check.bind_ok.1 popped
  cases Check.pure_ok.1 popped
  have h := (h.popExpected ⟨rfl, rfl⟩ (by simp) hi).1
  exact ⟨(h.popReference ha).1, Check.require_ok.1 holds⟩

/-- The elements of an array of references are named by its component. -/
theorem elementType_eq {name : String} (references : ClassName.hasReferenceComponent name.toList) :
    elementType (.reference name) = match ClassName.component? name.toList with
      | some component => .ok (.reference (String.ofList component))
      | none => .error .badType := by
  change (SlotType.reference name).component?.elim _ _ = _
  rw [SlotType.component?_eq references]
  cases ClassName.component? name.toList <;> rfl

/-- What an array of references holds is null or a reference. -/
theorem elementType_reference {array t : SlotType} (references : array.isReferenceArray)
    (h : elementType array = .ok t) : t = .null ∨ ∃ name, t = .reference name := by
  cases array with
  | null =>
    cases h
    exact .inl rfl
  | reference name =>
    rw [elementType_eq references] at h
    split at h
    · cases h
      exact .inr ⟨_, rfl⟩
    · cases h
  | _ => cases references

private theorem represents_arrayLoad {kind : ElementKind} (h : s.Represents f)
    (loaded : (arrayLoad kind f).run r = .ok g) : s.Represents g := by
  obtain ⟨⟨array, f'⟩, popped, loaded⟩ := Check.bind_ok.1 loaded
  obtain ⟨h, holds⟩ := represents_popArray h popped
  have elements (pushed : (liftM (f'.pushAll kind.slots) : Check Frame).run r = .ok g) :
      s.Represents g := h.pushAll (.element kind) (Check.lift_ok.1 pushed)
  cases kind with
  | reference =>
    obtain ⟨t, element, pushed⟩ := Check.bind_ok.1 loaded
    have pushed := Check.lift_ok.1 pushed
    rcases elementType_reference holds (Check.lift_ok.1 element) with rfl | ⟨name, rfl⟩
    · exact h.push ⟨rfl, rfl⟩ (.of_initialized rfl rfl) pushed
    · exact h.push ⟨rfl, rfl⟩ (.reference name) pushed
  | _ => exact elements loaded

private theorem represents_arrayStore {kind : ElementKind} (h : s.Represents f)
    (stored : (arrayStore kind f).run r = .ok g) : s.Represents g := by
  obtain ⟨f', popped, stored⟩ := Check.bind_ok.1 stored
  obtain ⟨⟨array, f''⟩, taken, stored⟩ := Check.bind_ok.1 stored
  cases Check.pure_ok.1 stored
  exact (represents_popArray (h.popAll (.element kind) popped) taken).1

private theorem represents_duplicate {count under : Nat} (h : s.Represents f)
    (copied : (duplicate count under f).run r = .ok g) : s.Represents g := by
  obtain ⟨⟨upper, f'⟩, hu, copied⟩ := Check.bind_ok.1 copied
  obtain ⟨⟨lower, f''⟩, hl, copied⟩ := Check.bind_ok.1 copied
  obtain ⟨h, upperPaired, upperKnown⟩ := h.popSlots hu
  obtain ⟨h, lowerPaired, lowerKnown⟩ := h.popSlots hl
  have pushed := Frame.pushAll_moves (Check.lift_ok.1 copied)
  rw [List.reverse_reverse] at pushed
  refine h.moves pushed .nil ?_ fun t ht => ?_
  · simp only [List.reverse_append]
    exact upperPaired.append (lowerPaired.append upperPaired)
  · rcases List.mem_append.1 ht with ht | ht
    · rcases List.mem_append.1 ht with ht | ht
      · exact upperKnown t ht
      · exact lowerKnown t ht
    · exact upperKnown t ht

private theorem popSlots_one {slots : List SlotType}
    (popped : (f.popSlots 1).run r = .ok (slots, g)) : slots.reverse = slots := by
  obtain ⟨⟨only, rest⟩, _, he⟩ := Check.bind_ok.1 popped
  cases Check.pure_ok.1 he
  rfl

private theorem represents_swap (h : s.Represents f) (swapped : (swap f).run r = .ok g) :
    s.Represents g := by
  obtain ⟨⟨upper, f'⟩, hu, swapped⟩ := Check.bind_ok.1 swapped
  obtain ⟨⟨lower, f''⟩, hl, swapped⟩ := Check.bind_ok.1 swapped
  obtain ⟨h, upperPaired, upperKnown⟩ := h.popSlots hu
  obtain ⟨h, lowerPaired, lowerKnown⟩ := h.popSlots hl
  refine h.moves (Frame.pushAll_moves (Check.lift_ok.1 swapped)) .nil ?_ fun t ht => ?_
  · rw [List.reverse_reverse]
    rw [popSlots_one hu] at upperPaired
    rw [popSlots_one hl] at lowerPaired
    exact upperPaired.append lowerPaired
  · rcases List.mem_append.1 (List.mem_reverse.1 ht) with ht | ht
    · exact upperKnown t ht
    · exact lowerKnown t ht

private theorem represents_loadConstant {index : UInt16} {wide : Bool} (h : s.Represents f)
    (loaded : m.loadConstant index wide f = .ok g) : s.Represents g := by
  obtain ⟨kind, _, loaded⟩ := except_bind_ok.1 loaded
  obtain ⟨slots, constant, pushed⟩ := except_bind_ok.1 loaded
  exact h.pushAll (.constant constant) pushed

private theorem represents_returnValue {kind : ValueKind} (h : s.Represents f)
    (returned : (m.returnValue kind f).run r = .ok g) : s.Represents g := by
  have rest {type : SlotType} {f' : Frame}
      (h : (do
        .require (m.resultType ≠ .bogus) .unexpectedReturnValue
        .require (← m.resultType.accepts type) .badReturnType
        return f' : Check Frame).run r = .ok g) : f' = g := by
    simp only [Check.bind_ok, Check.pure_ok] at h
    obtain ⟨_, _, _, _, _, _, he⟩ := h
    exact he
  cases kind with
  | number number =>
    obtain ⟨f', popped, returned⟩ := Check.bind_ok.1 returned
    obtain ⟨_, same, returned⟩ := Check.bind_ok.1 returned
    cases Check.pure_ok.1 same
    exact rest returned ▸ h.popAll (.number number) popped
  | reference =>
    obtain ⟨⟨t, f'⟩, popped, returned⟩ := Check.bind_ok.1 returned
    exact rest returned ▸ (h.popReference popped).1

/-- An integer or more gives way to a reference. -/
private theorem represents_created (count : Nat) {name : String} {popped : List SlotType}
    (h : s.Represents f)
    (accepted : Frame.Accepted r (List.replicate count .integer) popped)
    (moves : f.Moves popped [.reference name] g) : s.Represents g := by
  have sizes : Values (List.replicate count .integer) := by
    constructor
    · exact .of_whole fun t ht => List.eq_of_mem_replicate ht ▸ ⟨rfl, rfl⟩
    · exact fun t ht => List.eq_of_mem_replicate ht ▸ rfl
    · exact fun t ht => List.eq_of_mem_replicate ht ▸ rfl
  rw [← List.reverse_replicate] at accepted
  exact h.moves moves (sizes.of_accepted accepted) (.singleton ⟨rfl, rfl⟩)
    ((Values.reference name).knows s)

private theorem represents_arrayLength (h : s.Represents f)
    (pushed : (arrayLength f).run r = .ok g) : s.Represents g := by
  obtain ⟨array, accepted, _, moves⟩ := arrayLength_moves pushed
  have whole : array.IsWhole := SlotType.IsWhole.of_accepts ⟨rfl, rfl⟩ (by simp) accepted
  exact h.moves moves (.singleton whole) (.singleton ⟨rfl, rfl⟩) (Values.integer.knows s)

private theorem represents_testObject {index : UInt16} {result : SlotType → SlotType}
    (h : s.Represents f) (values : ∀ name, Values [result (.reference name)])
    (tested : (m.testObject index result f).run r = .ok g) : s.Represents g := by
  obtain ⟨name, popped, accepted, moves⟩ := testObject_moves tested
  exact h.moves moves ((Values.reference _).of_accepted accepted) (values name).paired
    ((values name).knows s)

/-- A field may be assigned in an object or in the pending receiver. -/
private theorem whole_of_assignee {target object : SlotType} {name descriptor : String}
    (reference : ∃ owner, target = .reference owner)
    (accepted : (target.accepts (m.assignee target object name descriptor)).run r = .ok true) :
    object.IsWhole := by
  obtain ⟨owner, rfl⟩ := reference
  unfold assignee at accepted
  split at accepted
  · next pending =>
    rw [pending.1]
    exact ⟨rfl, rfl⟩
  · exact SlotType.IsWhole.of_accepts ⟨rfl, rfl⟩ (by simp) accepted

private theorem represents_accessField {access : FieldAccess} {index : UInt16} (h : s.Represents f)
    (accessed : (m.accessField access index f).run r = .ok g) : s.Represents g := by
  obtain ⟨_, _, accessed⟩ := Check.bind_ok.1 accessed
  obtain ⟨name, _, accessed⟩ := Check.bind_ok.1 accessed
  obtain ⟨descriptor, _, accessed⟩ := Check.bind_ok.1 accessed
  obtain ⟨type, _, accessed⟩ := Check.bind_ok.1 accessed
  obtain ⟨owner, _, accessed⟩ := Check.bind_ok.1 accessed
  obtain ⟨_, _, accessed⟩ := Check.bind_ok.1 accessed
  cases access with
  | getStatic => exact h.pushAll (.slotsOf type) (Check.lift_ok.1 accessed)
  | putStatic => exact h.popAll (.slotsOf type) accessed
  | getField =>
    obtain ⟨⟨object, f'⟩, popped, pushed⟩ := Check.bind_ok.1 accessed
    exact (h.popExpected ⟨rfl, rfl⟩ (by simp) popped).1.pushAll (.slotsOf type)
      (Check.lift_ok.1 pushed)
  | putField =>
    obtain ⟨f', popped, accessed⟩ := Check.bind_ok.1 accessed
    obtain ⟨⟨object, f''⟩, taken, accessed⟩ := Check.bind_ok.1 accessed
    obtain ⟨accepted, ha, accessed⟩ := Check.bind_ok.1 accessed
    obtain ⟨_, required, accessed⟩ := Check.bind_ok.1 accessed
    cases Check.pure_ok.1 accessed
    cases Check.require_ok.1 required
    exact (h.popAll (.slotsOf type) popped).moves (Frame.pop_moves (Check.lift_ok.1 taken))
      (.singleton (whole_of_assignee ⟨owner, rfl⟩ ha)) .nil nofun

/-- The class that a receiver turns into has a name. -/
private theorem represents_construct {owner : String} (this : ∃ name, m.thisType = .reference name)
    (h : s.Represents f) (constructed : (m.construct owner f).run r = .ok (flow, g)) :
    s.Represents g := by
  obtain ⟨receiver, object, f', how, moves, rfl⟩ := construct_ok constructed
  have uninitialized : receiver.isUninitialized := by cases how <;> rfl
  have whole : receiver.IsWhole :=
    .of_isSingle (SlotType.isSingle_of_reference (by rw [uninitialized, Bool.or_true]))
  have reference : ∃ name, object = .reference name := by
    cases how with
    | this => exact this
    | created => exact ⟨_, rfl⟩
  obtain ⟨name, rfl⟩ := reference
  exact (h.moves moves (.singleton whole) .nil nofun).replaceAll uninitialized

private theorem represents_popReceiver {kind : CallKind} {owner : Option String} {name : String}
    (this : ∃ name, m.thisType = .reference name) (h : s.Represents f)
    (popped : (m.popReceiver kind owner name f).run r = .ok (flow, g)) : s.Represents g := by
  unfold popReceiver at popped
  split at popped
  · cases Check.pure_ok.1 popped
    exact h
  · cases Check.pure_ok.1 popped
    exact h
  · split at popped
    · exact represents_construct this h popped
    · obtain ⟨⟨receiver, f'⟩, taken, popped⟩ := Check.bind_ok.1 popped
      cases Check.pure_ok.1 popped
      split at taken
      · obtain ⟨self, hs⟩ := this
        rw [hs] at taken
        exact (h.popExpected ⟨rfl, rfl⟩ (by simp) taken).1
      · exact (h.popExpected ⟨rfl, rfl⟩ (by simp) taken).1

private theorem represents_call {kind : CallKind} {index : UInt16}
    (this : ∃ name, m.thisType = .reference name) (h : s.Represents f)
    (called : (m.call kind index f).run r = .ok (flow, g)) : s.Represents g := by
  obtain ⟨entry, _, called⟩ := Check.bind_ok.1 called
  obtain ⟨name, _, called⟩ := Check.bind_ok.1 called
  obtain ⟨descriptor, _, called⟩ := Check.bind_ok.1 called
  obtain ⟨type, _, called⟩ := Check.bind_ok.1 called
  obtain ⟨owner, _, called⟩ := Check.bind_ok.1 called
  obtain ⟨_, _, called⟩ := Check.bind_ok.1 called
  obtain ⟨_, _, called⟩ := Check.bind_ok.1 called
  obtain ⟨f', popped, called⟩ := Check.bind_ok.1 called
  obtain ⟨⟨flow', f''⟩, received, called⟩ := Check.bind_ok.1 called
  obtain ⟨g', pushed, called⟩ := Check.bind_ok.1 called
  cases Check.pure_ok.1 called
  have h := h.popAll (.flatMap fun p _ => .slotsOf p) popped
  have h := represents_popReceiver this h received
  have pushed := Check.lift_ok.1 pushed
  unfold pushResult at pushed
  split at pushed
  · cases pushed
    exact h
  · split at pushed
    · cases pushed
    · exact h.pushAll (.slotsOf _) pushed

/-- What a test compares are whole slots. -/
private theorem represents_branch (test : BranchTest) (h : s.Represents f)
    (popped : (f.popAll test.operands).run r = .ok g) : s.Represents g := by
  obtain ⟨slots, accepted, moves⟩ := Frame.popAll_moves popped
  have whole : ∀ t ∈ test.operands, t.IsWhole := by
    cases test <;> simp [BranchTest.operands, SlotType.IsWhole, SlotType.second?, SlotType.isSecond]
  have plain : ∀ t ∈ test.operands, t ≠ .bogus ∧ t ≠ .anyDouble := by
    cases test <;> simp [BranchTest.operands]
  have values := (Paired.of_whole whole).of_popped plain accepted
  exact h.moves moves values .nil (List.forall_mem_nil _)

private theorem represents_flow {x : Check Frame} {flow' : Flow}
    (keeps : ∀ {g}, x.run r = .ok g → s.Represents g)
    (done : (x >>= fun g => pure (flow', g)).run r = .ok (flow, g)) : s.Represents g := by
  obtain ⟨g', hx, done⟩ := Check.bind_ok.1 done
  cases Check.pure_ok.1 done
  exact keeps hx

/-- An instruction that succeeds on a frame of the method leaves a frame of the method. -/
theorem represents_effect (this : ∃ name, m.thisType = .reference name)
    (allocates : ∀ index, i = .new index → ∃ index, s.listing.allocation? f.offset = some index)
    (h : s.Represents f) (done : (m.effect i f).run r = .ok (flow, g)) : s.Represents g := by
  cases i with
  | nop | jump =>
    cases Check.pure_ok.1 done
    exact h
  | const kind =>
    cases kind with
    | number number =>
      exact represents_flow (fun hx => h.pushAll (.number number) (Check.lift_ok.1 hx)) done
    | reference =>
      refine represents_flow (fun hx => ?_) done
      exact h.push ⟨rfl, rfl⟩ (.of_initialized rfl rfl) (Check.lift_ok.1 hx)
  | loadConstant index =>
    exact represents_flow (fun hx => represents_loadConstant h (Check.lift_ok.1 hx)) done
  | loadWideConstant index =>
    exact represents_flow (fun hx => represents_loadConstant h (Check.lift_ok.1 hx)) done
  | load kind index => exact represents_flow (represents_load h) done
  | store kind index => exact represents_flow (represents_store h) done
  | increment index =>
    exact represents_flow (fun hx => increment_ok h.regular hx ▸ h) done
  | arrayLoad kind => exact represents_flow (represents_arrayLoad h) done
  | arrayStore kind => exact represents_flow (represents_arrayStore h) done
  | discard count =>
    obtain ⟨⟨slots, f'⟩, popped, done⟩ := Check.bind_ok.1 done
    cases Check.pure_ok.1 done
    exact (h.popSlots popped).1
  | duplicate count under => exact represents_flow (represents_duplicate h) done
  | swap => exact represents_flow (represents_swap h) done
  | compute operands result =>
    obtain ⟨f', popped, done⟩ := Check.bind_ok.1 done
    have h := h.popAll (.flatMap fun kind _ => .number kind) popped
    exact represents_flow (fun hx => h.pushAll (.number result) (Check.lift_ok.1 hx)) done
  | branch test target => exact represents_flow (represents_branch test h) done
  | subroutine opcode widened =>
    cases widened <;> exact (Check.reject_ok.1 done).elim
  | switch table =>
    refine represents_flow (fun hx => ?_) done
    obtain ⟨popped, accepted, moves⟩ := checkSwitch_moves hx
    exact h.moves moves (Values.integer.of_accepted accepted) .nil nofun
  | returnValue kind => exact represents_flow (represents_returnValue h) done
  | returnVoid =>
    exact represents_flow (fun hx => (returnVoid_ok (Check.lift_ok.1 hx)).1 ▸ h) done
  | field access index => exact represents_flow (represents_accessField h) done
  | call kind index => exact represents_call this h done
  | new index =>
    refine represents_flow (fun hx => ?_) done
    obtain ⟨index, found⟩ := allocates index rfl
    refine h.moves (allocate_moves (Check.lift_ok.1 hx)) .nil (.singleton ⟨rfl, rfl⟩) fun t ht => ?_
    rw [List.mem_singleton.1 ht]
    refine ⟨rfl, ?_⟩
    rintro n ⟨rfl⟩
    exact ⟨index, found⟩
  | newArray code =>
    refine represents_flow (fun hx => ?_) done
    obtain ⟨name, popped, accepted, moves⟩ := newArray_moves hx
    exact represents_created 1 h accepted moves
  | newReferenceArray index =>
    refine represents_flow (fun hx => ?_) done
    obtain ⟨name, popped, accepted, moves⟩ := newReferenceArray_moves hx
    exact represents_created 1 h accepted moves
  | newMultiArray index dimensions =>
    refine represents_flow (fun hx => ?_) done
    obtain ⟨name, popped, accepted, moves⟩ := newMultiArray_moves hx
    exact represents_created _ h accepted moves
  | arrayLength => exact represents_flow (represents_arrayLength h) done
  | throw =>
    exact represents_flow (h.popAll (.reference _)) done
  | cast index => exact represents_flow (represents_testObject h fun name => .reference name) done
  | isInstance index => exact represents_flow (represents_testObject h fun _ => .integer) done
  | monitor =>
    refine represents_flow (fun hx => ?_) done
    exact represents_branch .reference h hx

end ClassVerifier.Body
