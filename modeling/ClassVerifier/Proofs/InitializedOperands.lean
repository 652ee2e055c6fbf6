import ClassVerifier.Proofs.TakenSlots
import ClassVerifier.Proofs.WholeValues

/-! What is initialized among the slots that operations take off the stack. Where a number, an array
or an object of a class is asked for, no object is accepted before its constructor has run. -/
namespace ClassVerifier
open ClassVerifier.Frame (Accepted Pops Takes)
variable {r : Resolver} {m : Body} {f g : Frame} {popped : List SlotType}

/-- Where an initialized value is asked for, no other is accepted. -/
theorem SlotType.initialized_of_accepts {expected t : SlotType} (actual : expected.isActual)
    (initialized : expected.isUninitialized = false)
    (h : (expected.accepts t).run r = .ok true) : t.isUninitialized = false := by
  cases t with
  | uninitialized n => cases expected <;> simp_all [accepts, isActual, isUninitialized]
  | uninitializedThis => cases expected <;> simp_all [accepts, isActual, isUninitialized]
  | _ => rfl

private theorem initialized_of_all_accepted {types : List SlotType}
    (h : ∀ t ∈ types, t.isActual ∧ t.isUninitialized = false) (accepted : Accepted r types popped) :
    AllInitialized popped := by
  induction accepted with
  | nil => exact .nil
  | cons first _ ih =>
    obtain ⟨⟨actual, initialized⟩, others⟩ := List.forall_mem_cons.1 h
    have ht := SlotType.initialized_of_accepts actual initialized first
    exact List.forall_mem_cons.2 ⟨ht, ih others⟩

theorem Values.initialized_of_accepted {types : List SlotType} (h : Values types)
    (accepted : Accepted r types.reverse popped) : AllInitialized popped := by
  refine initialized_of_all_accepted (fun t ht => ?_) accepted
  have ht := List.mem_reverse.1 ht
  exact ⟨h.actual t ht, h.initialized t ht⟩

/-- An array of elements is initialized, or null. -/
theorem ElementKind.initialized_of_isElementOf {kind : ElementKind} {array : SlotType}
    (h : kind.isElementOf array) : array.isUninitialized = false := by
  cases array with
  | uninitialized n => cases kind with
    | number number => cases number <;> cases h
    | _ => cases h
  | uninitializedThis => cases kind with
    | number number => cases number <;> cases h
    | _ => cases h
  | _ => rfl

namespace Body

/-- What the operation takes off is initialized. -/
def TakesInitialized {α : Type} (r : Resolver) (x : Frame → Check α) (f : Frame) : Prop :=
  ∃ popped, Takes r x f popped ∧ AllInitialized popped

namespace TakesInitialized
variable {α β : Type} {x : Frame → Check α} {y : α → Check β}

theorem nil (hx : ∃ a, (x (f.keep 0)).run r = .ok a) : TakesInitialized r x f :=
  ⟨[], .nil hx, .nil⟩

theorem after {c : Check β} {x : β → Frame → Check α} {b : β} (hc : c.run r = .ok b)
    (hx : TakesInitialized r (x b) f) : TakesInitialized r (fun f => c >>= fun b => x b f) f := by
  obtain ⟨popped, takes, initialized⟩ := hx
  exact ⟨popped, takes.after hc, initialized⟩

/-- Values are taken off, and what comes then does not depend on what is left. -/
theorem popAll {types : List SlotType} {y : Frame → Check β} (values : Values types)
    (hp : (f.popAll types).run r = .ok g) (hy : ∃ b, (y (g.keep 0)).run r = .ok b) :
    TakesInitialized r (fun f => f.popAll types >>= y) f := by
  obtain ⟨popped, accepted, pops⟩ := Frame.popAll_pops hp
  exact ⟨popped, .bind_last pops hy, values.initialized_of_accepted accepted⟩

/-- Nothing is done but take values off. -/
theorem of_values {types : List SlotType} (values : Values types)
    (hp : (f.popAll types).run r = .ok g) : TakesInitialized r (fun f => f.popAll types) f := by
  obtain ⟨popped, accepted, pops⟩ := Frame.popAll_pops hp
  exact ⟨popped, .of_pops pops, values.initialized_of_accepted accepted⟩

end TakesInitialized

theorem load_takes {kind : ValueKind} {index : Nat}
    (h : (load kind index f).run r = .ok g) : TakesInitialized r (load kind index) f := by
  apply TakesInitialized.nil
  cases kind with
  | number number =>
    obtain ⟨f', hl, hp⟩ := Check.bind_ok.1 h
    obtain ⟨g', hg⟩ := Frame.pushAll_keep hp
    have hl : (loadNumber number index (f.keep 0)).run r = .ok (f'.keep 0) := by
      unfold loadNumber at hl ⊢
      split at hl
      · obtain ⟨u, hu, he⟩ := Check.bind_ok.1 hl
        cases Check.pure_ok.1 he
        exact Check.bind_ok.2 ⟨u, hu, rfl⟩
      · obtain ⟨⟨t, f''⟩, ht, he⟩ := Check.bind_ok.1 hl
        cases Check.pure_ok.1 he
        exact Check.bind_ok.2 ⟨_, Frame.load_keep 0 ht, rfl⟩
    exact ⟨g', Check.bind_ok.2 ⟨_, hl, hg⟩⟩
  | reference =>
    obtain ⟨⟨t, f'⟩, hl, hp⟩ := Check.bind_ok.1 h
    obtain ⟨g', hg⟩ := Frame.push_keep hp
    exact ⟨g', Check.bind_ok.2 ⟨_, Frame.load_keep 0 hl, hg⟩⟩

theorem increment_takes {index : Nat} (h : (increment index f).run r = .ok g) :
    TakesInitialized r (increment index) f := by
  obtain ⟨⟨t, f'⟩, hl, hs⟩ := Check.bind_ok.1 h
  exact .nil ⟨_, Check.bind_ok.2 ⟨_, Frame.load_keep 0 hl, Frame.store_keep 0 hs⟩⟩

theorem store_number_takes {kind : NumberKind} {index : Nat}
    (h : (store (.number kind) index f).run r = .ok g) :
    TakesInitialized r (store (.number kind) index) f := by
  obtain ⟨f', hp, hs⟩ := Check.bind_ok.1 h
  exact .popAll (.number kind) hp ⟨_, Frame.store_keep 0 hs⟩

theorem store_reference_takes {index : Nat} (h : (store .reference index f).run r = .ok g) :
    ∃ popped, Takes r (store .reference index) f popped := by
  obtain ⟨⟨t, f'⟩, hp, hs⟩ := Check.bind_ok.1 h
  exact ⟨[t], .bind_last (Frame.popExpected_pops hp) ⟨_, Frame.store_keep 0 hs⟩⟩

theorem popArray_pops {kind : ElementKind} {array : SlotType}
    (h : (popArray kind f).run r = .ok (array, g)) :
    ∃ index, AllInitialized [index, array] ∧
      Pops r (popArray kind) f [index, array] g fun g => (array, g) := by
  obtain ⟨⟨index, f'⟩, hi, h⟩ := Check.bind_ok.1 h
  obtain ⟨⟨array', f''⟩, ha, h⟩ := Check.bind_ok.1 h
  obtain ⟨u, hk, h⟩ := Check.bind_ok.1 h
  cases Check.pure_ok.1 h
  have number : index.isUninitialized = false :=
    SlotType.initialized_of_accepts rfl rfl (Frame.popExpected_moves hi).1
  have elements := ElementKind.initialized_of_isElementOf (Check.require_ok.1 hk)
  have initialized : AllInitialized [index, array] :=
    List.forall_mem_cons.2 ⟨number, List.forall_mem_singleton.2 elements⟩
  refine ⟨index, initialized, ?_⟩
  refine (Frame.popExpected_pops hi).bind ((Frame.popExpected_pops ha).map fun n => ?_)
  exact Check.bind_ok.2 ⟨u, hk, rfl⟩

theorem arrayLoad_takes {kind : ElementKind} (h : (arrayLoad kind f).run r = .ok g) :
    TakesInitialized r (arrayLoad kind) f := by
  obtain ⟨⟨array, f'⟩, ha, h⟩ := Check.bind_ok.1 h
  obtain ⟨index, initialized, pops⟩ := popArray_pops ha
  refine ⟨_, .bind_last pops ?_, initialized⟩
  cases kind with
  | reference =>
    obtain ⟨t, ht, h⟩ := Check.bind_ok.1 h
    obtain ⟨g', hg⟩ := Frame.push_keep h
    exact ⟨g', Check.bind_ok.2 ⟨t, ht, hg⟩⟩
  | number | byte | char | short => exact Frame.pushAll_keep h

theorem arrayStore_takes {kind : ElementKind} (h : (arrayStore kind f).run r = .ok g) :
    TakesInitialized r (arrayStore kind) f := by
  obtain ⟨f', hp, h⟩ := Check.bind_ok.1 h
  obtain ⟨⟨array, f''⟩, ha, _⟩ := Check.bind_ok.1 h
  obtain ⟨elements, accepted, stored⟩ := Frame.popAll_pops hp
  obtain ⟨index, initialized, pops⟩ := popArray_pops ha
  have values := (Values.element kind).initialized_of_accepted accepted
  exact ⟨_, .bind stored (.bind_last pops ⟨_, rfl⟩), List.forall_mem_append.2 ⟨values, initialized⟩⟩

theorem arrayLength_takes (h : (arrayLength f).run r = .ok g) :
    TakesInitialized r arrayLength f := by
  obtain ⟨⟨array, f'⟩, ha, h⟩ := Check.bind_ok.1 h
  obtain ⟨u, hk, h⟩ := Check.bind_ok.1 h
  have initialized : array.isUninitialized = false := by
    cases array <;> first | rfl | cases Check.require_ok.1 hk
  obtain ⟨g', hg⟩ := Frame.push_keep h
  exact ⟨[array], .bind_last (Frame.popExpected_pops ha) ⟨g', Check.bind_ok.2 ⟨u, hk, hg⟩⟩,
    .singleton initialized⟩

theorem checkSwitch_takes {table : Switch} (h : (m.checkSwitch table f).run r = .ok g) :
    TakesInitialized r (m.checkSwitch table) f := by
  obtain ⟨_, padded, h⟩ := Check.bind_ok.1 h
  obtain ⟨f', hp, h⟩ := Check.bind_ok.1 h
  obtain ⟨u, cases, h⟩ := Check.bind_ok.1 h
  exact .after padded (.popAll .integer hp ⟨_, Check.bind_ok.2 ⟨u, cases, rfl⟩⟩)

/-- A result that is no void has an initialized type. -/
theorem returnValue_takes {kind : ValueKind}
    (result : m.resultType ≠ .bogus →
      m.resultType.isActual ∧ m.resultType.isUninitialized = false)
    (h : (m.returnValue kind f).run r = .ok g) : TakesInitialized r (m.returnValue kind) f := by
  cases kind with
  | number number =>
    obtain ⟨f', hp, h⟩ := Check.bind_ok.1 h
    refine .popAll (.number number) hp ?_
    simp only [Check.bind_ok, Check.pure_ok] at h ⊢
    obtain ⟨_, rfl, u, value, accepted, ha, v, hv, _⟩ := h
    exact ⟨_, _, rfl, u, value, accepted, ha, v, hv, rfl⟩
  | reference =>
    obtain ⟨⟨t, f'⟩, hp, h⟩ := Check.bind_ok.1 h
    simp only [Check.bind_ok, Check.pure_ok] at h
    obtain ⟨u, value, accepted, ha, v, hv, _⟩ := h
    obtain rfl := Check.require_ok.1 hv
    obtain ⟨actual, initialized⟩ := result (by simpa using value)
    have ht := SlotType.initialized_of_accepts actual initialized ha
    refine ⟨[t], .bind_last (Frame.popExpected_pops hp) ?_, .singleton ht⟩
    simp only [Check.bind_ok, Check.pure_ok]
    exact ⟨_, u, value, true, ha, v, hv, rfl⟩

theorem newArray_takes {code : UInt8} (h : (newArray code f).run r = .ok g) :
    TakesInitialized r (newArray code) f := by
  obtain ⟨name, hn, h⟩ := Check.bind_ok.1 h
  obtain ⟨f', hp, h⟩ := Check.bind_ok.1 h
  exact .after hn (.popAll .integer hp (Frame.push_keep h))

theorem newReferenceArray_takes {index : UInt16}
    (h : (m.newReferenceArray index f).run r = .ok g) :
    TakesInitialized r (m.newReferenceArray index) f := by
  obtain ⟨_, ht, h⟩ := Check.bind_ok.1 h
  obtain ⟨name, hn, h⟩ := Check.bind_ok.1 h
  obtain ⟨f', hp, h⟩ := Check.bind_ok.1 h
  obtain ⟨u, hu, h⟩ := Check.bind_ok.1 h
  obtain ⟨g', hg⟩ := Frame.push_keep h
  exact .after ht (.after hn (.popAll .integer hp ⟨g', Check.bind_ok.2 ⟨u, hu, hg⟩⟩))

theorem newMultiArray_takes {index : UInt16} {dimensions : Nat}
    (h : (m.newMultiArray index dimensions f).run r = .ok g) :
    TakesInitialized r (m.newMultiArray index dimensions) f := by
  obtain ⟨type, ht, h⟩ := Check.bind_ok.1 h
  obtain ⟨_, hk, h⟩ := Check.bind_ok.1 h
  obtain ⟨_, hd, h⟩ := Check.bind_ok.1 h
  obtain ⟨f', hp, h⟩ := Check.bind_ok.1 h
  have values : Values (List.replicate dimensions .integer) := by
    have each : Values ((List.replicate dimensions SlotType.integer).flatMap fun t => [t]) := by
      refine .flatMap fun t ht => ?_
      rw [List.eq_of_mem_replicate ht]
      exact .integer
    rwa [List.flatMap_singleton'] at each
  exact .after ht (.after hk (.after hd (.popAll values hp (Frame.push_keep h))))

theorem testObject_takes {index : UInt16} {result : SlotType → SlotType}
    (h : (m.testObject index result f).run r = .ok g) :
    TakesInitialized r (m.testObject index result) f := by
  obtain ⟨type, ht, h⟩ := Check.bind_ok.1 h
  obtain ⟨f', hp, h⟩ := Check.bind_ok.1 h
  exact .after ht (.popAll (.reference _) hp (Frame.push_keep h))

end Body
end ClassVerifier
