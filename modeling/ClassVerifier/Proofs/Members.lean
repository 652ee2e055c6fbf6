import ClassVerifier.Proofs.Operations

/-! What field accesses and calls do to a frame when they succeed. A constructor call is the only
one that turns a receiver into an object, and the handlers around it have seen the frame before. -/
namespace ClassVerifier.Body
open ClassVerifier.Frame
variable {r : Resolver} {m : Body} {f g : Frame} {flow : Flow}

/-- What a handler sees does not depend on the stack. -/
theorem checkHandlers_withStack (f : Frame) (stack : Stack) (thisPending : Bool) :
    m.checkHandlers { f with stack } thisPending = m.checkHandlers f thisPending := by
  have each (hs : List Handler) :
      m.checkEach { f with stack } thisPending hs = m.checkEach f thisPending hs := by
    induction hs with
    | nil => rfl
    | cons e hs ih =>
      rw [checkEach, checkEach, ih]
      rfl
  exact each _

theorem checkHandlers_of_moves {popped pushed : List SlotType} (h : f.Moves popped pushed g)
    (thisPending : Bool) : m.checkHandlers g thisPending = m.checkHandlers f thisPending := by
  rw [h.same]
  exact checkHandlers_withStack f g.stack thisPending

theorem accessField_moves {access : FieldAccess} {index : UInt16}
    (h : (m.accessField access index f).run r = .ok g) :
    ∃ popped pushed, AllInitialized pushed ∧ f.Moves popped pushed g := by
  obtain ⟨_, _, h⟩ := Check.bind_ok.1 h
  obtain ⟨name, _, h⟩ := Check.bind_ok.1 h
  obtain ⟨descriptor, _, h⟩ := Check.bind_ok.1 h
  obtain ⟨type, _, h⟩ := Check.bind_ok.1 h
  obtain ⟨owner, _, h⟩ := Check.bind_ok.1 h
  obtain ⟨_, _, h⟩ := Check.bind_ok.1 h
  cases access with
  | getStatic =>
    exact ⟨[], _, (AllInitialized.slotsOf type).reverse, pushAll_moves (Check.lift_ok.1 h)⟩
  | putStatic =>
    obtain ⟨popped, _, hm⟩ := popAll_moves h
    exact ⟨popped, [], .nil, hm⟩
  | getField =>
    obtain ⟨⟨object, f'⟩, ho, h⟩ := Check.bind_ok.1 h
    have hm := (popExpected_moves ho).2.push (pushAll_moves (Check.lift_ok.1 h))
    rw [List.append_nil] at hm
    exact ⟨_, _, (AllInitialized.slotsOf type).reverse, hm⟩
  | putField =>
    obtain ⟨f', hv, h⟩ := Check.bind_ok.1 h
    obtain ⟨⟨object, f''⟩, ho, h⟩ := Check.bind_ok.1 h
    obtain ⟨accepted, _, h⟩ := Check.bind_ok.1 h
    obtain ⟨_, _, h⟩ := Check.bind_ok.1 h
    cases Check.pure_ok.1 h
    obtain ⟨popped, _, hm⟩ := popAll_moves hv
    exact ⟨_, [], .nil, hm.pop (pop_moves (Check.lift_ok.1 ho))⟩

theorem checkThrows_ok {handlers : List Handler} {u : Unit} :
    m.checkThrows handlers = .ok u ↔
      ∀ h ∈ handlers, m.listing.endsInThrow m.code.bytes h.target.toNat = .ok true := by
  induction handlers with
  | nil => simp [checkThrows]
  | cons h handlers ih =>
    rw [checkThrows, except_bind_ok, List.forall_mem_cons, ← ih]
    constructor
    · rintro ⟨throws, explored, rest⟩
      cases throws with
      | true => exact ⟨explored, rest⟩
      | false => cases rest
    · rintro ⟨explored, rest⟩
      exact ⟨true, explored, rest⟩

/-- A constructor of the class `owner` may be called on the receiver, which then becomes a value of
another type, and control leaves the call this way. -/
inductive Constructing (r : Resolver) (m : Body) (owner : String) (f : Frame) :
    SlotType → Flow → SlotType → Prop
  | this (near : owner = m.owner.name ∨ m.owner.superclass = some owner)
      (guarded : m.isProtected f.offset →
        (∀ h ∈ m.handlersAt f.offset,
          m.listing.endsInThrow m.code.bytes h.target.toNat = .ok true) ∧
        (m.checkHandlers f true).run r = .ok ()) :
      Constructing r m owner f .uninitializedThis .initialized m.thisType
  | created {offset : Nat} {index : UInt16}
      (allocated : Listing.newIndex? m.code.bytes offset = some index)
      (type : m.classType index = .ok (.reference owner))
      (guarded : m.isProtected f.offset → (m.checkHandlers f false).run r = .ok ()) :
      Constructing r m owner f (.uninitialized offset) .next (.reference owner)

theorem construct_ok {owner : String} (h : (m.construct owner f).run r = .ok (flow, g)) :
    ∃ receiver object f', Constructing r m owner f receiver flow object ∧
      f.Moves [receiver] [] f' ∧ g = f'.replaceAll receiver object := by
  obtain ⟨⟨receiver, f'⟩, hr, h⟩ := Check.bind_ok.1 h
  have hm := (popExpected_moves hr).2
  have seen (thisPending : Bool) :
      m.checkHandlers f' thisPending = m.checkHandlers f thisPending :=
    checkHandlers_of_moves hm thisPending
  cases receiver with
  | uninitializedThis =>
    obtain ⟨_, near, h⟩ := Check.bind_ok.1 h
    have near : owner = m.owner.name ∨ m.owner.superclass = some owner := by simpa using near
    rw [hm.offset_eq, seen] at h
    split at h
    · obtain ⟨_, throws, h⟩ := Check.bind_ok.1 h
      obtain ⟨_, checked, h⟩ := Check.bind_ok.1 h
      cases Check.pure_ok.1 h
      have throws := checkThrows_ok.1 (Check.lift_ok.1 throws)
      exact ⟨_, _, _, .this near fun _ => ⟨throws, checked⟩, hm, rfl⟩
    · next free =>
      cases Check.pure_ok.1 h
      exact ⟨_, _, _, .this near fun covered => absurd covered free, hm, rfl⟩
  | uninitialized offset =>
    obtain ⟨index, allocated, h⟩ := Check.bind_ok.1 h
    obtain ⟨created, type, h⟩ := Check.bind_ok.1 h
    obtain ⟨_, same, h⟩ := Check.bind_ok.1 h
    obtain rfl : created = .reference owner := by simpa using same
    have allocated := Check.ofOption_ok.1 allocated
    have type := Check.lift_ok.1 type
    rw [hm.offset_eq, seen] at h
    split at h
    · obtain ⟨_, checked, h⟩ := Check.bind_ok.1 h
      cases Check.pure_ok.1 h
      exact ⟨_, _, _, .created allocated type fun _ => checked, hm, rfl⟩
    · next free =>
      cases Check.pure_ok.1 h
      exact ⟨_, _, _, .created allocated type fun covered => absurd covered free, hm, rfl⟩
  | _ => exact (Check.reject_ok.1 h).elim

/-- What was taken off or put on before the call does not matter. -/
private theorem Constructing.of_moves {owner : String} {receiver object : SlotType}
    {popped pushed : List SlotType} (h : f.Moves popped pushed g)
    (c : Constructing r m owner g receiver flow object) :
    Constructing r m owner f receiver flow object := by
  cases c with
  | this near guarded =>
    rw [checkHandlers_of_moves h, h.offset_eq] at guarded
    exact .this near guarded
  | created allocated type guarded =>
    rw [checkHandlers_of_moves h, h.offset_eq] at guarded
    exact .created allocated type guarded

/-- The instruction calls a constructor of the class `owner`, and the receiver lies on the stack
right below the arguments. -/
def Constructs (m : Body) (i : Instruction) (f : Frame) (owner : String) (receiver : SlotType) :
    Prop :=
  ∃ index descriptor type, i = .call .special index ∧
    m.owner.pool.memberName index = .ok "<init>" ∧ m.owner.pool.ownerName index = .ok owner ∧
    m.owner.pool.memberDescriptor index = .ok descriptor ∧
    MethodType.ofDescriptor descriptor = .ok type ∧
    f.stack.slots[(type.parameters.flatMap SlotType.slotsOf).length]? = some receiver

/-- No call takes more than one receiver. -/
theorem Constructs.receiver_eq {i : Instruction} {owner owner' : String}
    {receiver receiver' : SlotType} (h : m.Constructs i f owner receiver)
    (h' : m.Constructs i f owner' receiver') : receiver = receiver' := by
  obtain ⟨index, descriptor, type, rfl, _, _, hd, ht, hr⟩ := h
  obtain ⟨index', descriptor', type', he, _, _, hd', ht', hr'⟩ := h'
  cases he
  cases hd.symm.trans hd'
  cases ht.symm.trans ht'
  exact Option.some.inj (hr.symm.trans hr')

theorem special_of_checkName {kind : CallKind} {owner : Option String} {name : String}
    {entry : ConstantKind} {u : Unit} (h : (m.checkName kind owner name entry).run r = .ok u)
    (hn : isConstructorName name) : kind = .special := by
  obtain rfl : name = "<init>" := by simpa [isConstructorName] using hn
  have internal : isInternalName "<init>" := by decide
  unfold checkName at h
  rw [if_pos internal, Check.require_ok, Bool.and_eq_true, decide_eq_true_eq] at h
  exact h.1

private theorem popReceiver_moves {kind : CallKind} {owner : Option String} {name : String}
    (hn : ¬isConstructorName name) (h : (m.popReceiver kind owner name f).run r = .ok (flow, g)) :
    flow = .next ∧ ∃ popped, f.Moves popped [] g := by
  unfold popReceiver at h
  split at h
  · cases Check.pure_ok.1 h
    exact ⟨rfl, [], .refl f⟩
  · cases Check.pure_ok.1 h
    exact ⟨rfl, [], .refl f⟩
  · rw [if_neg hn] at h
    obtain ⟨⟨receiver, f'⟩, hr, h⟩ := Check.bind_ok.1 h
    cases Check.pure_ok.1 h
    exact ⟨rfl, [receiver], (popExpected_moves hr).2⟩

private theorem pushResult_moves {name : String} {result : Option FieldType}
    (h : pushResult name result f = .ok g) :
    (isConstructorName name → g = f) ∧ ∃ pushed, AllInitialized pushed ∧ f.Moves [] pushed g := by
  unfold pushResult at h
  split at h
  · cases h
    exact ⟨fun _ => rfl, [], .nil, .refl f⟩
  · next type =>
    split at h
    · simp at h
    · next hn =>
      exact ⟨fun hc => absurd hc hn, _, (AllInitialized.slotsOf type).reverse, pushAll_moves h⟩

theorem methodType_ok {descriptor : String} {type : MethodType}
    (h : methodType descriptor = .ok type) : MethodType.ofDescriptor descriptor = .ok type := by
  unfold methodType at h
  split at h
  · next he =>
    cases h
    exact he
  · simp at h

theorem call_ok {kind : CallKind} {index : UInt16}
    (h : (m.call kind index f).run r = .ok (flow, g)) :
    (m.owner.pool.memberName index ≠ .ok "<init>" ∧ flow = .next ∧
      ∃ popped pushed, AllInitialized pushed ∧ f.Moves popped pushed g) ∨
    ∃ owner receiver object popped f', m.Constructs (.call kind index) f owner receiver ∧
      Constructing r m owner f receiver flow object ∧ f.Moves popped [] f' ∧
      g = f'.replaceAll receiver object := by
  obtain ⟨entry, _, h⟩ := Check.bind_ok.1 h
  obtain ⟨name, hname, h⟩ := Check.bind_ok.1 h
  obtain ⟨descriptor, hd, h⟩ := Check.bind_ok.1 h
  obtain ⟨type, ht, h⟩ := Check.bind_ok.1 h
  obtain ⟨owner, ho, h⟩ := Check.bind_ok.1 h
  obtain ⟨_, _, h⟩ := Check.bind_ok.1 h
  obtain ⟨_, hc, h⟩ := Check.bind_ok.1 h
  obtain ⟨f', hp, h⟩ := Check.bind_ok.1 h
  obtain ⟨⟨flow', f''⟩, hr, h⟩ := Check.bind_ok.1 h
  obtain ⟨g', hres, h⟩ := Check.bind_ok.1 h
  cases Check.pure_ok.1 h
  have hname := Check.lift_ok.1 hname
  obtain ⟨popped, ha, hm⟩ := popAll_moves hp
  obtain ⟨hsame, pushed, hi, hres⟩ := pushResult_moves (Check.lift_ok.1 hres)
  by_cases hn : isConstructorName name
  · right
    obtain rfl := special_of_checkName hc hn
    obtain ⟨o, howner, he⟩ := except_bind_ok.1 (Check.lift_ok.1 ho)
    cases he
    have hr : (m.construct o f').run r = .ok (flow, f'') := by
      simpa only [popReceiver, if_pos hn] using hr
    obtain ⟨receiver, object, f₀, hk, hm', rfl⟩ := construct_ok hr
    have called : m.Constructs (.call .special index) f o receiver := by
      obtain rfl : name = "<init>" := by simpa [isConstructorName] using hn
      refine ⟨index, descriptor, type, rfl, hname, howner, Check.lift_ok.1 hd, ?_, ?_⟩
      · exact methodType_ok (Check.lift_ok.1 ht)
      · have depth := List.Forall₂.length_eq ha
        rw [List.length_reverse] at depth
        rw [depth]
        exact (hm.pop hm').getElem?_stack
    exact ⟨o, receiver, object, _, f₀, called, hk.of_moves hm, hm.pop hm', hsame hn⟩
  · left
    obtain ⟨rfl, receiver, hr⟩ := popReceiver_moves hn hr
    refine ⟨?_, rfl, popped ++ receiver, pushed, hi, ?_⟩
    · rw [hname]
      rintro ⟨rfl⟩
      exact hn rfl
    · simpa using (hm.pop hr).push hres

end ClassVerifier.Body
