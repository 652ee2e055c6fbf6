import ClassVerifier.Proofs.InitializedOperands
import ClassVerifier.Proofs.Typing

/-! What may be done with an object before its constructor has run. It may be moved about, compared
with another, locked, and given to a constructor as its receiver; nothing that takes it off the
stack lets it go any other way, but that a constructor may assign the fields of its own class. -/
namespace ClassVerifier
open ClassVerifier.Frame (Pops Takes)
variable {r : Resolver} {m : Body} {f g : Frame} {flow : Flow} {i : Instruction}

namespace Body

/-- The instruction may take a slot that holds this type while it is not initialized, so many slots
below the top. -/
def MayTake (m : Body) (i : Instruction) (depth : Nat) (t : SlotType) : Prop :=
  match i with
  | .discard _ | .duplicate .. | .swap | .store .reference _ | .branch .reference _
  | .branch .referencePair _ | .monitor => True
  | .call kind index =>
    kind = .special ∧ m.owner.pool.memberName index = .ok "<init>" ∧
      ∃ descriptor type, m.owner.pool.memberDescriptor index = .ok descriptor ∧
        MethodType.ofDescriptor descriptor = .ok type ∧
        depth = (type.parameters.flatMap SlotType.slotsOf).length
  | .field access index =>
    access = .putField ∧ t = .uninitializedThis ∧
      m.owner.pool.ownerName index = .ok m.owner.name ∧
      ∃ name descriptor type, m.owner.pool.memberName index = .ok name ∧
        m.owner.pool.memberDescriptor index = .ok descriptor ∧
        FieldType.ofDescriptor descriptor = .ok type ∧ m.owner.declaresField name descriptor ∧
        depth = (SlotType.slotsOf type).length
  | _ => False

/-- An uninitialized slot that is taken off lies where the instruction may take it. -/
def TakesAllowed {α : Type} (r : Resolver) (m : Body) (i : Instruction) (x : Frame → Check α)
    (f : Frame) : Prop :=
  ∃ popped, Takes r x f popped ∧
    ∀ (k : Nat) t, popped[k]? = some t → t.isUninitialized → m.MayTake i k t

namespace TakesAllowed
variable {α β : Type} {x : Frame → Check α} {y : α → Check β}

theorem of_initialized (h : TakesInitialized r x f) : TakesAllowed r m i x f := by
  obtain ⟨popped, takes, initialized⟩ := h
  refine ⟨popped, takes, fun k t hk ht => ?_⟩
  rw [initialized t (List.mem_of_getElem? hk)] at ht
  cases ht

/-- The instruction may take any slot. -/
theorem of_takes (h : ∃ popped, Takes r x f popped) (any : ∀ k t, m.MayTake i k t) :
    TakesAllowed r m i x f := by
  obtain ⟨popped, takes⟩ := h
  exact ⟨popped, takes, fun k t _ _ => any k t⟩

theorem map (hx : TakesAllowed r m i x f) (hy : ∀ a, ∃ b, (y a).run r = .ok b) :
    TakesAllowed r m i (fun f => x f >>= y) f := by
  obtain ⟨popped, takes, allowed⟩ := hx
  exact ⟨popped, takes.map hy, allowed⟩

theorem after {c : Check β} {x : β → Frame → Check α} {b : β} (hc : c.run r = .ok b)
    (hx : TakesAllowed r m i (x b) f) :
    TakesAllowed r m i (fun f => c >>= fun b => x b f) f := by
  obtain ⟨popped, takes, allowed⟩ := hx
  exact ⟨popped, takes.after hc, allowed⟩

end TakesAllowed

/-- Only the last of the slots may be uninitialized. -/
private theorem last_of_uninitialized {front : List SlotType} {last t : SlotType} {k : Nat}
    (initialized : AllInitialized front) (hk : (front ++ [last])[k]? = some t)
    (ht : t.isUninitialized) : k = front.length ∧ t = last := by
  rcases Nat.lt_or_ge k front.length with inside | behind
  · rw [List.getElem?_append_left inside] at hk
    rw [initialized t (List.mem_of_getElem? hk)] at ht
    cases ht
  · rw [List.getElem?_append_right behind] at hk
    have here : k - front.length = 0 := by
      have := (List.getElem?_eq_some_iff.1 hk).1
      simpa using this
    rw [here] at hk
    cases hk
    exact ⟨by omega, rfl⟩

private theorem fieldType_ok {descriptor : String} {type : FieldType}
    (h : fieldType descriptor = .ok type) : FieldType.ofDescriptor descriptor = .ok type := by
  unfold fieldType at h
  split at h
  · next he =>
    cases h
    exact he
  · cases h

private theorem accessField_takes {access : FieldAccess} {index : UInt16}
    (this : m.thisType = .reference m.owner.name)
    (h : (m.accessField access index f).run r = .ok g) :
    TakesAllowed r m (.field access index) (m.accessField access index) f := by
  obtain ⟨_, hk, h⟩ := Check.bind_ok.1 h
  obtain ⟨name, hn, h⟩ := Check.bind_ok.1 h
  obtain ⟨descriptor, hd, h⟩ := Check.bind_ok.1 h
  obtain ⟨type, ht, h⟩ := Check.bind_ok.1 h
  obtain ⟨owner, ho, h⟩ := Check.bind_ok.1 h
  obtain ⟨_, hr, h⟩ := Check.bind_ok.1 h
  refine .after hk (.after hn (.after hd (.after ht (.after ho (.after hr ?_)))))
  have values := Values.slotsOf type
  cases access with
  | getStatic => exact .of_initialized (.nil (Frame.pushAll_keep h))
  | putStatic => exact .of_initialized (.of_values values h)
  | getField =>
    obtain ⟨⟨object, f'⟩, hp, h⟩ := Check.bind_ok.1 h
    have initialized : object.isUninitialized = false :=
      SlotType.initialized_of_accepts rfl rfl (Frame.popExpected_moves hp).1
    exact .of_initialized ⟨[object], .bind_last (Frame.popExpected_pops hp) (Frame.pushAll_keep h),
      .singleton initialized⟩
  | putField =>
    obtain ⟨f', hv, h⟩ := Check.bind_ok.1 h
    obtain ⟨⟨object, f''⟩, hp, h⟩ := Check.bind_ok.1 h
    obtain ⟨accepts, ha, h⟩ := Check.bind_ok.1 h
    obtain ⟨u, hu, _⟩ := Check.bind_ok.1 h
    obtain rfl := Check.require_ok.1 hu
    obtain ⟨popped, accepted, pops⟩ := Frame.popAll_pops hv
    have top := Frame.pop_pops (r := r) (Check.lift_ok.1 hp)
    refine ⟨popped ++ [object], .bind pops (.bind_last top ⟨f''.keep 0, ?_⟩),
      fun k t place pending => ?_⟩
    · exact Check.bind_ok.2 ⟨true, ha, Check.bind_ok.2 ⟨u, hu, rfl⟩⟩
    · obtain ⟨rfl, rfl⟩ := last_of_uninitialized (values.initialized_of_accepted accepted) place
        pending
      have depth := accepted.length_eq
      rw [List.length_reverse] at depth
      unfold assignee at ha
      split at ha
      · next own =>
        obtain ⟨receiver, target, declared⟩ := own
        have near := SlotType.reference.inj (target.trans this)
        exact ⟨rfl, receiver, near ▸ Check.lift_ok.1 ho, name, descriptor, type,
          Check.lift_ok.1 hn, Check.lift_ok.1 hd, fieldType_ok (Check.lift_ok.1 ht), declared,
          depth.symm⟩
      · rw [SlotType.initialized_of_accepts rfl rfl ha] at pending
        cases pending

private theorem construct_pops {owner : String} (h : (m.construct owner f).run r = .ok (flow, g)) :
    ∃ receiver f' result, Pops r (m.construct owner) f [receiver] f' result := by
  obtain ⟨⟨receiver, f'⟩, hr, h⟩ := Check.bind_ok.1 h
  have top := Frame.popExpected_pops hr
  have seen (n : Nat) (thisPending : Bool) :
      m.checkHandlers (f'.keep n) thisPending = m.checkHandlers f' thisPending :=
    checkHandlers_withStack f' _ thisPending
  cases receiver with
  | uninitializedThis =>
    refine ⟨_, f', fun h => (.initialized, h.replaceAll .uninitializedThis m.thisType),
      top.map fun n => ?_⟩
    obtain ⟨u, near, h⟩ := Check.bind_ok.1 h
    refine Check.bind_ok.2 ⟨u, near, ?_⟩
    change (if m.isProtected f'.offset then _ else _ : Check (Flow × Frame)).run r = _
    rw [seen]
    split at h
    · next guarded =>
      obtain ⟨v, throws, h⟩ := Check.bind_ok.1 h
      obtain ⟨w, checked, _⟩ := Check.bind_ok.1 h
      rw [if_pos guarded]
      exact Check.bind_ok.2 ⟨v, throws, Check.bind_ok.2 ⟨w, checked, rfl⟩⟩
    · next free =>
      rw [if_neg free]
      rfl
  | uninitialized offset =>
    obtain ⟨index, allocated, h⟩ := Check.bind_ok.1 h
    obtain ⟨created, type, h⟩ := Check.bind_ok.1 h
    obtain ⟨u, same, h⟩ := Check.bind_ok.1 h
    refine ⟨_, f', fun h => (.next, h.replaceAll (.uninitialized offset) created),
      top.map fun n => ?_⟩
    refine Check.bind_ok.2 ⟨index, allocated, ?_⟩
    refine Check.bind_ok.2 ⟨created, type, Check.bind_ok.2 ⟨u, same, ?_⟩⟩
    change (if m.isProtected f'.offset then _ else _ : Check (Flow × Frame)).run r = _
    rw [seen]
    split at h
    · next guarded =>
      obtain ⟨w, checked, _⟩ := Check.bind_ok.1 h
      rw [if_pos guarded]
      exact Check.bind_ok.2 ⟨w, checked, rfl⟩
    · next free =>
      rw [if_neg free]
      rfl
  | _ => exact (Check.reject_ok.1 h).elim

private theorem popReceiver_pops {kind : CallKind} {owner : Option String} {name : String}
    (this : m.thisType = .reference m.owner.name) (hn : ¬isConstructorName name)
    (h : (m.popReceiver kind owner name f).run r = .ok (flow, g)) :
    ∃ popped, AllInitialized popped ∧
      Pops r (m.popReceiver kind owner name) f popped g fun g => (flow, g) := by
  have untouched (same : m.popReceiver kind owner name = fun f => pure (.next, f)) :
      ∃ popped, AllInitialized popped ∧
        Pops r (m.popReceiver kind owner name) f popped g fun g => (flow, g) := by
    rw [same] at h ⊢
    cases Check.pure_ok.1 h
    exact ⟨[], .nil, .nil fun _ => rfl⟩
  have taken (expected : SlotType) (actual : expected.isActual)
      (initialized : expected.isUninitialized = false)
      (same : m.popReceiver kind owner name = fun f =>
        f.popExpected expected >>= fun rest => pure (.next, rest.2)) :
      ∃ popped, AllInitialized popped ∧
        Pops r (m.popReceiver kind owner name) f popped g fun g => (flow, g) := by
    rw [same] at h ⊢
    obtain ⟨⟨receiver, f'⟩, hr, h⟩ := Check.bind_ok.1 h
    cases Check.pure_ok.1 h
    have ht := SlotType.initialized_of_accepts actual initialized (Frame.popExpected_moves hr).1
    exact ⟨[receiver], .singleton ht, (Frame.popExpected_pops hr).map fun _ => rfl⟩
  cases owner with
  | none =>
    apply untouched
    cases kind <;> rfl
  | some owner =>
    cases kind with
    | static => exact untouched rfl
    | special =>
      refine taken m.thisType ?_ ?_ ?_
      · rw [this]; rfl
      · rw [this]; rfl
      · funext f
        simp only [popReceiver, if_neg hn, if_true]
    | _ =>
      refine taken (.reference owner) rfl rfl ?_
      funext f
      simp only [popReceiver, if_neg hn, reduceCtorEq, if_false]

private theorem pushResult_keep {name : String} {result : Option FieldType}
    (h : (liftM (pushResult name result f) : Check Frame).run r = .ok g) :
    ∃ g', (liftM (pushResult name result (f.keep 0)) : Check Frame).run r = .ok g' := by
  unfold pushResult at h ⊢
  split at h
  · exact ⟨_, rfl⟩
  · split at h
    · cases Check.lift_ok.1 h
    · next plain =>
      rw [if_neg plain]
      exact Frame.pushAll_keep h

private theorem call_takes {kind : CallKind} {index : UInt16}
    (this : m.thisType = .reference m.owner.name)
    (h : (m.call kind index f).run r = .ok (flow, g)) :
    TakesAllowed r m (.call kind index) (m.call kind index) f := by
  obtain ⟨entry, he, h⟩ := Check.bind_ok.1 h
  obtain ⟨name, hname, h⟩ := Check.bind_ok.1 h
  obtain ⟨descriptor, hd, h⟩ := Check.bind_ok.1 h
  obtain ⟨type, ht, h⟩ := Check.bind_ok.1 h
  obtain ⟨owner, ho, h⟩ := Check.bind_ok.1 h
  obtain ⟨_, hb, h⟩ := Check.bind_ok.1 h
  obtain ⟨_, hc, h⟩ := Check.bind_ok.1 h
  obtain ⟨f', hp, h⟩ := Check.bind_ok.1 h
  obtain ⟨⟨flow', f''⟩, hr, h⟩ := Check.bind_ok.1 h
  obtain ⟨g', hres, _⟩ := Check.bind_ok.1 h
  refine .after he (.after hname (.after hd (.after ht (.after ho (.after hb (.after hc ?_))))))
  obtain ⟨popped, accepted, arguments⟩ := Frame.popAll_pops hp
  have values : Values (type.parameters.flatMap SlotType.slotsOf) :=
    .flatMap fun parameter _ => .slotsOf parameter
  have initialized := values.initialized_of_accepted accepted
  by_cases hn : isConstructorName name
  · obtain rfl := special_of_checkName hc hn
    obtain ⟨o, _, ho⟩ := except_bind_ok.1 (Check.lift_ok.1 ho)
    cases ho
    have construct : m.popReceiver .special (some o) name = m.construct o := by
      funext f
      simp only [popReceiver, if_pos hn]
    rw [construct] at hr ⊢
    obtain ⟨receiver, f₀, result, top⟩ := construct_pops hr
    have void : type.result = none := by
      cases hv : type.result with
      | none => rfl
      | some value =>
        rw [hv, pushResult, if_pos hn] at hres
        cases Check.lift_ok.1 hres
    refine ⟨popped ++ [receiver], .bind arguments (.bind_last top ?_), fun k t hk pending => ?_⟩
    · rw [void]
      exact ⟨_, rfl⟩
    · obtain ⟨rfl, rfl⟩ := last_of_uninitialized initialized hk pending
      have depth := accepted.length_eq
      rw [List.length_reverse] at depth
      obtain rfl : name = "<init>" := by simpa [isConstructorName] using hn
      exact ⟨rfl, Check.lift_ok.1 hname, descriptor, type, Check.lift_ok.1 hd,
        methodType_ok (Check.lift_ok.1 ht), depth.symm⟩
  · obtain ⟨receiver, plain, top⟩ := popReceiver_pops this hn hr
    refine .of_initialized ⟨popped ++ receiver, .bind arguments (.bind_last top ?_),
      List.forall_mem_append.2 ⟨initialized, plain⟩⟩
    obtain ⟨g', hg⟩ := pushResult_keep hres
    exact ⟨_, Check.bind_ok.2 ⟨g', hg, rfl⟩⟩

private theorem loadConstant_keep {index : UInt16} {wide : Bool}
    (h : (liftM (m.loadConstant index wide f) : Check Frame).run r = .ok g) :
    ∃ g', (liftM (m.loadConstant index wide (f.keep 0)) : Check Frame).run r = .ok g' := by
  obtain ⟨kind, hk, h⟩ := except_bind_ok.1 (Check.lift_ok.1 h)
  obtain ⟨slots, hs, h⟩ := except_bind_ok.1 h
  obtain ⟨g', hg⟩ := Frame.pushAll_keep (r := r) (Check.lift_ok.2 h)
  refine ⟨g', Check.lift_ok.2 (except_bind_ok.2 ⟨kind, hk, except_bind_ok.2 ⟨slots, hs, ?_⟩⟩)⟩
  exact Check.lift_ok.1 hg

private theorem returnVoid_keep (h : (liftM (m.returnVoid f) : Check Frame).run r = .ok g) :
    ∃ g', (liftM (m.returnVoid (f.keep 0)) : Check Frame).run r = .ok g' := by
  have h := Check.lift_ok.1 h
  unfold returnVoid at h
  split at h
  · cases h
  · next void =>
    split at h
    · cases h
    · next settled =>
      refine ⟨f.keep 0, Check.lift_ok.2 ?_⟩
      rw [returnVoid, if_neg void]
      exact if_neg settled

private theorem allocate_keep {index : UInt16}
    (h : (liftM (m.allocate index f) : Check Frame).run r = .ok g) :
    ∃ g', (liftM (m.allocate index (f.keep 0)) : Check Frame).run r = .ok g' := by
  obtain ⟨type, ht, h⟩ := except_bind_ok.1 (Check.lift_ok.1 h)
  split at h
  · next object =>
    obtain ⟨g', hg⟩ := Frame.push_keep (r := r) (Check.lift_ok.2 h)
    refine ⟨g', Check.lift_ok.2 (except_bind_ok.2 ⟨type, ht, ?_⟩)⟩
    rw [if_pos object]
    exact Check.lift_ok.1 hg
  · cases h

private theorem duplicate_takes {count under : Nat} (h : (duplicate count under f).run r = .ok g) :
    ∃ popped, Takes r (duplicate count under) f popped := by
  obtain ⟨⟨upper, f'⟩, hu, h⟩ := Check.bind_ok.1 h
  obtain ⟨⟨lower, f''⟩, hl, h⟩ := Check.bind_ok.1 h
  exact ⟨_, .bind (Frame.popSlots_pops hu)
    (.bind_last (Frame.popSlots_pops hl) (Frame.pushAll_keep h))⟩

private theorem swap_takes (h : (swap f).run r = .ok g) : ∃ popped, Takes r swap f popped := by
  obtain ⟨⟨upper, f'⟩, hu, h⟩ := Check.bind_ok.1 h
  obtain ⟨⟨lower, f''⟩, hl, h⟩ := Check.bind_ok.1 h
  exact ⟨_, .bind (Frame.popSlots_pops hu)
    (.bind_last (Frame.popSlots_pops hl) (Frame.pushAll_keep h))⟩

private theorem popAll_takes {types : List SlotType} (h : (f.popAll types).run r = .ok g) :
    ∃ popped, Takes r (fun f => f.popAll types) f popped := by
  obtain ⟨popped, _, pops⟩ := Frame.popAll_pops h
  exact ⟨popped, .of_pops pops⟩

/-- Every instruction takes off what it may. -/
theorem effect_takes (this : m.thisType = .reference m.owner.name)
    (result : m.resultType ≠ .bogus →
      m.resultType.isActual ∧ m.resultType.isUninitialized = false)
    (h : (m.effect i f).run r = .ok (flow, g)) : TakesAllowed r m i (m.effect i) f := by
  have done {x : Frame → Check Frame} {flow : Flow} (hx : TakesAllowed r m i x f) :
      TakesAllowed r m i (fun f => x f >>= fun g => pure (flow, g)) f :=
    hx.map fun g => ⟨(flow, g), rfl⟩
  cases i with
  | nop | jump target => exact .of_initialized (.nil ⟨_, rfl⟩)
  | const kind =>
    cases kind with
    | number number =>
      obtain ⟨rfl, hg⟩ := completes_ok.1 h
      exact done (.of_initialized (.nil (Frame.pushAll_keep hg)))
    | reference =>
      obtain ⟨rfl, hg⟩ := completes_ok.1 h
      exact done (.of_initialized (.nil (Frame.push_keep hg)))
  | loadConstant index =>
    obtain ⟨rfl, hg⟩ := completes_ok.1 h
    exact done (.of_initialized (.nil (loadConstant_keep hg)))
  | loadWideConstant index =>
    obtain ⟨rfl, hg⟩ := completes_ok.1 h
    exact done (.of_initialized (.nil (loadConstant_keep hg)))
  | load kind index =>
    obtain ⟨rfl, hg⟩ := completes_ok.1 h
    exact done (.of_initialized (load_takes hg))
  | store kind index =>
    obtain ⟨rfl, hg⟩ := completes_ok.1 h
    cases kind with
    | number number => exact done (.of_initialized (store_number_takes hg))
    | reference => exact done (.of_takes (store_reference_takes hg) fun _ _ => trivial)
  | increment index =>
    obtain ⟨rfl, hg⟩ := completes_ok.1 h
    exact done (.of_initialized (increment_takes hg))
  | arrayLoad kind =>
    obtain ⟨rfl, hg⟩ := completes_ok.1 h
    exact done (.of_initialized (arrayLoad_takes hg))
  | arrayStore kind =>
    obtain ⟨rfl, hg⟩ := completes_ok.1 h
    exact done (.of_initialized (arrayStore_takes hg))
  | discard count =>
    obtain ⟨⟨popped, f'⟩, hp, _⟩ := Check.bind_ok.1 h
    exact .of_takes ⟨popped, .bind_last (Frame.popSlots_pops hp) ⟨_, rfl⟩⟩ fun _ _ => trivial
  | duplicate count under =>
    obtain ⟨rfl, hg⟩ := completes_ok.1 h
    exact done (.of_takes (duplicate_takes hg) fun _ _ => trivial)
  | swap =>
    obtain ⟨rfl, hg⟩ := completes_ok.1 h
    exact done (.of_takes (swap_takes hg) fun _ _ => trivial)
  | compute operands result =>
    obtain ⟨f', hp, h⟩ := Check.bind_ok.1 h
    obtain ⟨rfl, hg⟩ := completes_ok.1 h
    obtain ⟨g', hg⟩ := Frame.pushAll_keep hg
    have values : Values (operands.flatMap (·.slots)) := .flatMap fun kind _ => .number kind
    exact .of_initialized (.popAll values hp ⟨_, completes_ok.2 ⟨rfl, hg⟩⟩)
  | branch test target =>
    obtain ⟨rfl, hg⟩ := completes_ok.1 h
    cases test with
    | int => exact done (.of_initialized (.of_values .integer hg))
    | intPair => exact done (.of_initialized (.of_values (Values.integer.append .integer) hg))
    | reference => exact done (.of_takes (popAll_takes hg) fun _ _ => trivial)
    | referencePair => exact done (.of_takes (popAll_takes hg) fun _ _ => trivial)
  | subroutine opcode widened => cases widened <;> exact (Check.reject_ok.1 h).elim
  | switch table =>
    obtain ⟨rfl, hg⟩ := completes_ok.1 h
    exact done (.of_initialized (checkSwitch_takes hg))
  | returnValue kind =>
    obtain ⟨rfl, hg⟩ := completes_ok.1 h
    exact done (.of_initialized (returnValue_takes result hg))
  | returnVoid =>
    obtain ⟨rfl, hg⟩ := completes_ok.1 h
    exact done (.of_initialized (.nil (returnVoid_keep hg)))
  | field access index =>
    obtain ⟨rfl, hg⟩ := completes_ok.1 h
    exact done (accessField_takes this hg)
  | call kind index => exact call_takes this h
  | new index =>
    obtain ⟨rfl, hg⟩ := completes_ok.1 h
    exact done (.of_initialized (.nil (allocate_keep hg)))
  | newArray code =>
    obtain ⟨rfl, hg⟩ := completes_ok.1 h
    exact done (.of_initialized (newArray_takes hg))
  | newReferenceArray index =>
    obtain ⟨rfl, hg⟩ := completes_ok.1 h
    exact done (.of_initialized (newReferenceArray_takes hg))
  | newMultiArray index dimensions =>
    obtain ⟨rfl, hg⟩ := completes_ok.1 h
    exact done (.of_initialized (newMultiArray_takes hg))
  | arrayLength =>
    obtain ⟨rfl, hg⟩ := completes_ok.1 h
    exact done (.of_initialized (arrayLength_takes hg))
  | throw =>
    obtain ⟨rfl, hg⟩ := completes_ok.1 h
    exact done (.of_initialized (.of_values (.reference _) hg))
  | cast index =>
    obtain ⟨rfl, hg⟩ := completes_ok.1 h
    exact done (.of_initialized (testObject_takes hg))
  | isInstance index =>
    obtain ⟨rfl, hg⟩ := completes_ok.1 h
    exact done (.of_initialized (testObject_takes hg))
  | monitor =>
    obtain ⟨rfl, hg⟩ := completes_ok.1 h
    exact done (.of_takes (popAll_takes hg) fun _ _ => trivial)

end Body

/-- What a method with a result leaves is initialized. -/
private theorem initialized_result {method : Method} {name : String} {maxLocals maxStack : Nat}
    {result : SlotType}
    (h : Frame.entry method (.reference name) maxLocals maxStack = .ok (f, result))
    (value : result ≠ .bogus) : result.isActual ∧ result.isUninitialized = false := by
  unfold Frame.entry at h
  split at h
  · cases h
  · next type _ =>
    dsimp only at h
    split at h
    · cases h
    · cases h
      cases hr : type.result with
      | none =>
        rw [hr] at value
        exact absurd rfl value
      | some type =>
        have values := Values.slotsOf type
        have first : SlotType.ofFieldType type ∈ SlotType.slotsOf type := List.mem_cons_self
        exact ⟨values.actual _ first, values.initialized _ first⟩

/-- An instruction that is applied to a frame, whatever the frame, takes a certain number of slots
off the stack. Where one of these is not initialized, it is among those of an instruction that
moves, compares or locks references; or it is the receiver of a constructor call; or it is the
pending receiver of the method, which assigns a field that its class declares and names as its
own. -/
theorem uninitialized_confined {c : ClassModel} {method : Method} {code : Code} {initial : Frame}
    (prepared : (code.prepare c method).run r = .ok (m, initial))
    (executed : (m.execute i f).run r = .ok (flow, g)) :
    (∃ popped, Takes r (m.effect i) f popped) ∧
      ∀ popped, Takes r (m.effect i) f popped →
        ∀ (k : Nat) t, popped[k]? = some t → t.isUninitialized → m.MayTake i k t := by
  have p := Code.prepare_ok prepared
  obtain ⟨⟨flow', g'⟩, effect, _⟩ := Check.bind_ok.1 executed
  have this : m.thisType = .reference m.owner.name := by rw [p.thisType_eq, p.owner_eq]
  obtain ⟨popped, takes, allowed⟩ := Body.effect_takes this (initialized_result p.entry_eq) effect
  refine ⟨⟨popped, takes⟩, fun popped' takes' => ?_⟩
  rw [takes'.unique takes]
  exact allowed

/-- Sets a field before it calls the constructor of the superclass. -/
def settingCode : Code where
  maxStack := 2
  maxLocals := 1
  bytes := #[0x2a, 0x04, 0xb5, 0x00, 0x06, 0x2a, 0xb7, 0x00, 0x0c, 0xb1]

def settingConstructor : Method := ⟨0x0001, "<init>", "()V", some settingCode⟩

def setter : ClassModel where
  version := 52
  access := 0x0021
  name := "Setter"
  superclass := some ClassName.object
  fields := [⟨"value", "I"⟩]
  methods := [settingConstructor]
  pool := .ofList [.utf8 "Setter", .classRef 1, .utf8 "value", .utf8 "I", .nameAndType 3 4,
    .fieldRef 2 5, .utf8 ClassName.object, .classRef 7, .utf8 "<init>", .utf8 "()V",
    .nameAndType 9 10, .methodRef 8 11]

/-- In front of the assignment. -/
def assigning : Frame where
  offset := 2
  used := 1
  maxLocals := 1
  maxStack := 2
  thisPending := true
  locals := #[.uninitializedThis]
  stack := .ofSlots [.integer, .uninitializedThis]

/-- The assignment takes the receiver from below the value. -/
theorem uninitialized_confined_assigning :
    ∃ m initial, (settingCode.prepare setter settingConstructor).run (fun _ => .unknown) =
        .ok (m, initial) ∧
      Takes (fun _ => .unknown) (m.effect (.field .putField 6)) assigning
        [.integer, .uninitializedThis] ∧
      m.MayTake (.field .putField 6) 1 .uninitializedThis := by
  have both : (settingCode.prepare setter settingConstructor >>= fun prepared =>
      prepared.1.execute (.field .putField 6) assigning).run (fun _ => .unknown) =
        .ok (.next, assigning.keep 0) := by decide +kernel
  have enough : (settingCode.prepare setter settingConstructor >>= fun prepared =>
      prepared.1.effect (.field .putField 6) (assigning.keep 2)).run (fun _ => .unknown) =
        .ok (.next, assigning.keep 0) := by decide +kernel
  have short : ∀ n < 2, (settingCode.prepare setter settingConstructor >>= fun prepared =>
      prepared.1.effect (.field .putField 6) (assigning.keep n)).run (fun _ => .unknown) =
        Frame.runsOut := by decide +kernel
  obtain ⟨⟨m, initial⟩, prepared, executed⟩ := Check.bind_ok.1 both
  have takes : Takes (fun _ => .unknown) (m.effect (.field .putField 6)) assigning
      [.integer, .uninitializedThis] := by
    refine ⟨List.prefix_rfl, ⟨_, (Check.run_bind_of_ok prepared).symm.trans enough⟩, fun n hn => ?_⟩
    exact (Check.run_bind_of_ok prepared).symm.trans (short n hn)
  refine ⟨m, initial, prepared, takes, ?_⟩
  exact (uninitialized_confined prepared executed).2 _ takes 1 .uninitializedThis rfl rfl

end ClassVerifier
