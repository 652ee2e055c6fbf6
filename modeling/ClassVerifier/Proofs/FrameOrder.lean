import ClassVerifier.Proofs.Assignability
import ClassVerifier.Proofs.FollowingChecks
import ClassVerifier.Proofs.FrameShape

/-! Frames that can stand for others. Where one frame is below another, slot by slot, whatever can
be taken off the upper one or read from it can be taken off the lower one or read from it, and the
frames stay in this order. -/
namespace ClassVerifier
variable {r : Resolver}

/-- A hierarchy of classes, apart from the two interfaces that arrays have. -/
structure Resolver.IsClassHierarchy (r : Resolver) : Prop extends r.IsHierarchy where
  exact : ∀ name, r.IsExact name

namespace SlotType
variable {s t u : SlotType}

/-- The first slot may stand for the second one, which is one that can be. -/
structure Below (r : Resolver) (s t : SlotType) : Prop where
  actual : t.isActual
  accepted : (t.accepts s).run r = .ok true

namespace Below

theorem refl (actual : t.isActual) : Below r t t := ⟨actual, accepts_self t⟩

/-- What is not initialized stands for itself only. -/
theorem eq_of_uninitialized (h : Below r s t) (ht : t.isUninitialized) : s = t :=
  eq_of_accepts ht h.accepted

theorem eq_of_uninitialized_source (h : Below r s t) (hs : s.isUninitialized) : s = t := by
  rcases (accepts_ok h.actual).1 h.accepted with rfl | ⟨_, _, rfl | ⟨_, rfl, _⟩⟩
  · rfl
  · cases hs
  · cases hs

/-- So does either slot of a long or double. -/
theorem eq_of_half (h : Below r s t) (half : ¬s.IsWhole) : s = t := by
  rcases (accepts_ok h.actual).1 h.accepted with rfl | ⟨_, _, rfl | ⟨_, rfl, _⟩⟩
  · rfl
  · exact absurd ⟨rfl, rfl⟩ half
  · exact absurd ⟨rfl, rfl⟩ half

theorem slots (h : Below r s t) : List.Forall₂ (Below r) s.slots t.slots := by
  rcases (accepts_ok h.actual).1 h.accepted with rfl | ⟨_, rfl, rfl | ⟨_, rfl, _⟩⟩
  · refine List.forall₂_same.2 fun u hu => .refl ?_
    rcases List.mem_cons.1 hu with rfl | hu
    · exact h.actual
    · cases s <;> simp [second?] at hu <;> subst hu <;> rfl
  · exact .cons h .nil
  · exact .cons h .nil

/-- An object takes the place of what was not initialized, in both slots or in neither. -/
theorem replace (h : Below r s t) {old new : SlotType} (uninitialized : old.isUninitialized)
    (actual : new.isActual) :
    Below r (if s = old then new else s) (if t = old then new else t) := by
  by_cases here : t = old
  · rw [if_pos here, if_pos ((h.eq_of_uninitialized (here ▸ uninitialized)).trans here)]
    exact .refl actual
  · have elsewhere : s ≠ old := by
      rintro rfl
      exact here (h.eq_of_uninitialized_source uninitialized).symm
    rwa [if_neg here, if_neg elsewhere]

theorem accepts (h : Below r s t) (hr : r.IsClassHierarchy) {expected : SlotType}
    (accepted : (expected.accepts t).run r = .ok true) : (expected.accepts s).run r = .ok true :=
  accepts_trans hr.toIsHierarchy (fun _ _ _ => hr.exact _) accepted h.accepted

end Below

/-- An unusable slot may only flow into an unusable one. -/
theorem Flows.trans (hr : r.IsClassHierarchy) (actual : u.isActual) (hst : s.Flows r t)
    (htu : t.Flows r u) : s.Flows r u := by
  rcases htu with rfl | htu
  · exact .inl rfl
  · rcases hst with rfl | hst
    · rcases (accepts_ok actual).1 htu with rfl | ⟨_, _, he | ⟨_, he, _⟩⟩
      · exact .inl rfl
      · cases he
      · cases he
    · exact .inr (accepts_trans hr.toIsHierarchy (fun _ _ _ => hr.exact _) htu hst)

end SlotType

namespace Frame
variable {f g h : Frame}

/-- The first frame stands at the same offset and may stand for the second one: slot by slot it
flows into the other, in which there is no slot that cannot be. -/
structure Below (r : Resolver) (f g : Frame) : Prop where
  offset_eq : f.offset = g.offset
  maxLocals_eq : f.maxLocals = g.maxLocals
  maxStack_eq : f.maxStack = g.maxStack
  source : f.Regular
  target : g.Regular
  actual : ∀ t ∈ g.locals, t.isActual
  locals : ∀ (k : Nat) s t, f.locals[k]? = some s → g.locals[k]? = some t → SlotType.Flows r s t
  stack : List.Forall₂ (SlotType.Below r) f.stack.slots g.stack.slots
  thisPending : f.thisPending → g.thisPending

namespace Below

theorem depth_eq (b : f.Below r g) : f.stack.depth = g.stack.depth := by
  rw [f.stack.depth_eq, g.stack.depth_eq]
  exact b.stack.length_eq

theorem size_eq (b : f.Below r g) : f.locals.size = g.locals.size := by
  rw [b.source.size_eq, b.target.size_eq]
  exact b.maxLocals_eq

/-- A local that is there in one frame is there in the other. -/
theorem local_below (b : f.Below r g) {k : Nat} {t : SlotType} (ht : g.locals[k]? = some t) :
    ∃ s, f.locals[k]? = some s ∧ SlotType.Flows r s t := by
  have inside : k < f.locals.size := b.size_eq ▸ (Array.getElem?_eq_some_iff.1 ht).1
  exact ⟨_, Array.getElem?_eq_getElem inside, b.locals k _ t (Array.getElem?_eq_getElem inside) ht⟩

/-- Frames that flow are in order, if neither is out of shape and no operand is unusable. -/
theorem of_flows (hf : f.WellFormed) (hg : g.WellFormed) (offset : f.offset = g.offset)
    (maxStack : f.maxStack = g.maxStack) (usable : .top ∉ g.stack.slots) (flows : f.Flows r g) :
    f.Below r g := by
  obtain ⟨⟨maxLocals, depth⟩, _, locals, stack, pending⟩ := flows_iff.1 flows
  refine ⟨offset, maxLocals, maxStack, hf.regular, hg.regular, fun t ht => hg.actual t (.inl ht),
    fun k s t hs ht => ?_, ?_, pending⟩
  · rcases Nat.lt_or_ge k g.used with inside | beyond
    · exact locals k s t inside hs ht
    · exact .inl (hg.regular.unused k t beyond ht)
  · rw [f.stack.depth_eq, g.stack.depth_eq] at depth
    refine List.forall₂_iff_get.2 ⟨depth, fun k hk hk' => ?_⟩
    have held : g.stack.slots[k] ∈ g.stack.slots := List.getElem_mem hk'
    have flows := stack k _ _ (List.getElem?_eq_getElem hk) (List.getElem?_eq_getElem hk')
    refine ⟨hg.actual _ (.inr held), flows.resolve_left fun top => ?_⟩
    exact usable (top ▸ held)

theorem flows (b : f.Below r g) : f.Flows r g := by
  have size : g.used ≤ g.locals.size := b.target.size_eq ▸ b.target.used_le
  refine flows_iff.2 ⟨⟨b.maxLocals_eq, b.depth_eq⟩, ⟨b.size_eq ▸ size, size⟩,
    fun k s t _ => b.locals k s t, fun k s t hs ht => ?_, b.thisPending⟩
  obtain ⟨hk, rfl⟩ := List.getElem?_eq_some_iff.1 hs
  obtain ⟨hk', rfl⟩ := List.getElem?_eq_some_iff.1 ht
  exact .inr (b.stack.get hk hk').accepted

/-- Where a frame may flow, every frame below it may flow. -/
theorem flows_trans (b : f.Below r g) (hr : r.IsClassHierarchy)
    (actual : ∀ t, h.Holds t → t.isActual) (flows : g.Flows r h) : f.Flows r h := by
  obtain ⟨⟨maxLocals, depth⟩, ⟨size, size'⟩, locals, stack, pending⟩ := flows_iff.1 flows
  refine flows_iff.2 ⟨⟨b.maxLocals_eq.trans maxLocals, b.depth_eq.trans depth⟩,
    ⟨b.size_eq ▸ size, size'⟩, fun k s u hk hs hu => ?_, fun k s u hs hu => ?_,
    fun hp => pending (b.thisPending hp)⟩
  · have ht := Array.getElem?_eq_getElem (Nat.lt_of_lt_of_le hk size)
    have held : h.Holds u := .inl (Array.mem_of_getElem? hu)
    exact (b.locals k s _ hs ht).trans hr (actual u held) (locals k _ u hk ht hu)
  · obtain ⟨hk, rfl⟩ := List.getElem?_eq_some_iff.1 hs
    have hk' : k < g.stack.slots.length := b.stack.length_eq ▸ hk
    have held : h.Holds u := .inr (List.mem_of_getElem? hu)
    have lower : SlotType.Flows r _ _ := .inr (b.stack.get hk hk').accepted
    exact lower.trans hr (actual u held) (stack k _ u (List.getElem?_eq_getElem hk') hu)

/-- The locals stay in order, whatever becomes of the stack and of the receiver. -/
theorem over_locals (b : f.Below r g) {a c : Stack} {p q : Bool}
    (stack : List.Forall₂ (SlotType.Below r) a.slots c.slots) (pending : p → q) :
    { f with stack := a, thisPending := p }.Below r { g with stack := c, thisPending := q } where
  offset_eq := b.offset_eq
  maxLocals_eq := b.maxLocals_eq
  maxStack_eq := b.maxStack_eq
  source := ⟨b.source.size_eq, b.source.used_le, b.source.unused⟩
  target := ⟨b.target.size_eq, b.target.used_le, b.target.unused⟩
  actual := b.actual
  locals := b.locals
  stack := stack
  thisPending := pending

theorem with_stack (b : f.Below r g) {a c : Stack}
    (stack : List.Forall₂ (SlotType.Below r) a.slots c.slots) :
    { f with stack := a }.Below r { g with stack := c } :=
  b.over_locals stack b.thisPending

theorem inHandler (b : f.Below r g) {p q : Bool} (pending : p → q) :
    (f.inHandler p).Below r (g.inHandler q) :=
  b.over_locals .nil pending

/-- The frames stay in order wherever both stand. -/
theorem at_offset (b : f.Below r g) (offset : Nat) :
    { f with offset }.Below r { g with offset } where
  offset_eq := rfl
  maxLocals_eq := b.maxLocals_eq
  maxStack_eq := b.maxStack_eq
  source := (Agrees.at_offset f offset).regular b.source
  target := (Agrees.at_offset g offset).regular b.target
  actual := b.actual
  locals := b.locals
  stack := b.stack
  thisPending := b.thisPending

theorem push (b : f.Below r g) {s t : SlotType} (st : SlotType.Below r s t) :
    Follows (Below r) (f.push s) (g.push t) := by
  by_cases room : g.stack.depth < g.maxStack
  · have room' : f.stack.depth < f.maxStack := by rwa [b.depth_eq, b.maxStack_eq]
    rw [Frame.push, Frame.push, if_pos room, if_pos room']
    exact .ok (b.with_stack (.cons st b.stack))
  · rw [Frame.push, Frame.push, if_neg room]
    exact .error

/-- Two stacks in order have their tops in order, and what is below them. -/
theorem pop? (b : f.Below r g) {t : SlotType} {rest : Stack}
    (top : g.stack.pop? = some (t, rest)) :
    ∃ s rest', f.stack.pop? = some (s, rest') ∧ SlotType.Below r s t ∧
      { f with stack := rest' }.Below r { g with stack := rest } := by
  have stack := b.stack
  rw [Stack.pop?_eq_some_iff.1 top] at stack
  obtain ⟨s, slots, first, others, he⟩ := List.forall₂_cons_right_iff.1 stack
  refine ⟨s, .ofSlots slots, Stack.pop?_eq_some_iff.2 (Stack.ext he), first, ?_⟩
  exact b.with_stack others

section
variable (hr : r.IsClassHierarchy)
include hr

/-- A local that holds what is expected holds it in the lower frame too. -/
private theorem expectLocal (b : f.Below r g) (index : Nat) {expected : SlotType}
    (used : (expected.accepts .top).run r ≠ .ok true) :
    (f.expectLocal index expected).Follows r (SlotType.Below r) (g.expectLocal index expected) := by
  intro t h
  obtain ⟨ht, accepted⟩ := expectLocal_ok.1 h
  obtain ⟨s, hs, flows⟩ := b.local_below ht
  have below : SlotType.Below r s t := by
    refine ⟨b.actual t (Array.mem_of_getElem? ht), flows.resolve_left ?_⟩
    rintro rfl
    exact used accepted
  exact ⟨s, expectLocal_ok.2 ⟨hs, below.accepts hr accepted⟩, below⟩

theorem load (b : f.Below r g) (index : Nat) {expected : SlotType}
    (used : (expected.accepts .top).run r ≠ .ok true) :
    (f.load index expected).Follows r (fun p q => SlotType.Below r p.1 q.1 ∧
      (expected.accepts q.1).run r = .ok true ∧ p.2 = f ∧ q.2 = g) (g.load index expected) := by
  rintro ⟨t, g'⟩ h
  obtain ⟨rfl, ht, accepted⟩ := load_ok b.target used h
  obtain ⟨s, hs, below⟩ := b.expectLocal hr index used t (expectLocal_ok.2 ⟨ht, accepted⟩)
  have room : index < f.maxLocals := b.maxLocals_eq ▸ (load_ok_iff.1 h).1
  have loaded := load_ok_iff.2 ⟨room, expectLocal_ok.1 hs, rfl⟩
  obtain ⟨same, _, _⟩ := load_ok b.source used loaded
  exact ⟨_, loaded, below, accepted, same, rfl⟩

theorem loadPair (b : f.Below r g) (index : Nat) {first second : SlotType}
    (used : (first.accepts .top).run r ≠ .ok true)
    (used' : (second.accepts .top).run r ≠ .ok true) :
    (f.loadPair index first second).Follows r (fun _ _ => True)
      (g.loadPair index first second) := by
  rintro _ h
  obtain ⟨_, ⟨_, hs⟩, _, ht⟩ := loadPair_ok_iff.1 h
  obtain ⟨s, hs, _⟩ := b.expectLocal hr index used _ (expectLocal_ok.2 hs)
  obtain ⟨t, ht, _⟩ := b.expectLocal hr (index + 1) used' _ (expectLocal_ok.2 ht)
  have inside : index + 1 < f.used := by
    refine Nat.lt_of_not_le fun beyond => ?_
    obtain ⟨held, accepted⟩ := expectLocal_ok.1 ht
    rw [b.source.unused _ _ beyond held] at accepted
    exact used' accepted
  exact ⟨(), loadPair_ok_iff.2 ⟨inside, ⟨s, expectLocal_ok.1 hs⟩, t, expectLocal_ok.1 ht⟩, trivial⟩

end

/-- A slot of a long or double flows into the same slot or into an unusable one. -/
private theorem eq_of_half (b : f.Below r g) {k : Nat} {s t : SlotType}
    (hs : f.locals[k]? = some s) (ht : g.locals[k]? = some t) (half : ¬s.IsWhole) :
    t = .top ∨ s = t := by
  refine (b.locals k s t hs ht).imp_right fun accepted => ?_
  exact SlotType.Below.eq_of_half ⟨b.actual t (Array.mem_of_getElem? ht), accepted⟩ half

/-- A write into the lower frame spoils no local that is usable above and not spoiled there. -/
private theorem spoiled (b : f.Below r g) (hf : Paired f.locals.toList)
    (hg : Paired g.locals.toList) {index size k : Nat} {t : SlotType} (some : 0 < size)
    (ht : g.locals[k]? = .some t) (spoiled : Spoiled f.locals index size k) :
    t = .top ∨ Spoiled g.locals index size k := by
  rcases spoiled with ⟨rfl, first⟩ | ⟨rfl, second⟩
  · obtain ⟨last, hlast⟩ : ∃ last, index + size = last + 1 := ⟨index + size - 1, by omega⟩
    rw [hlast, Nat.add_sub_cancel] at first
    rw [hlast] at ht
    obtain ⟨s, hs, second⟩ := next_of_isFirst hf first
    refine (b.eq_of_half hs ht fun whole => ?_).imp_right fun he => .inl ⟨rfl, ?_⟩
    · rw [whole.2] at second
      cases second
    · obtain ⟨u, hu, first⟩ := previous_of_isSecond hg (getD_of_getElem? ht ▸ he ▸ second)
      rwa [hlast, Nat.add_sub_cancel, getD_of_getElem? hu]
  · obtain ⟨s, hs, first⟩ := previous_of_isSecond hf second
    refine (b.eq_of_half hs ht fun whole => ?_).imp_right fun he => .inr ⟨rfl, ?_⟩
    · obtain ⟨_, other⟩ := SlotType.isFirst_iff.1 first
      rw [whole.1] at other
      cases other
    · obtain ⟨u, hu, second⟩ := next_of_isFirst hg (getD_of_getElem? ht ▸ he ▸ first)
      rwa [getD_of_getElem? hu]

/-- Writes of slots in order keep the locals in order. -/
private theorem overwrite (b : f.Below r g) (hf : Paired f.locals.toList)
    (hg : Paired g.locals.toList) {index : Nat} {ss ts : List SlotType}
    (st : List.Forall₂ (SlotType.Below r) ss ts) (some : 0 < ts.length)
    (room : index + ts.length ≤ f.locals.size) {k : Nat} {s t : SlotType}
    (hs : (Frame.overwrite f.locals index ss)[k]? = .some s)
    (ht : (Frame.overwrite g.locals index ts)[k]? = .some t) : SlotType.Flows r s t := by
  have length := st.length_eq
  rw [getElem?_overwrite_eq (length ▸ room), length] at hs
  rw [getElem?_overwrite_eq (b.size_eq ▸ room)] at ht
  by_cases inside : index ≤ k ∧ k < index + ts.length
  · rw [if_pos inside] at hs ht
    obtain ⟨hk, rfl⟩ := List.getElem?_eq_some_iff.1 hs
    obtain ⟨hk', rfl⟩ := List.getElem?_eq_some_iff.1 ht
    exact .inr (st.get hk hk').accepted
  · rw [if_neg inside] at hs ht
    by_cases above : Spoiled g.locals index ts.length k
    · rw [if_pos above] at ht
      obtain ⟨_, _, rfl⟩ := Option.map_eq_some_iff.1 ht
      exact .inl rfl
    · rw [if_neg above] at ht
      by_cases below : Spoiled f.locals index ts.length k
      · exact .inl ((b.spoiled hf hg some ht below).resolve_right above)
      · rw [if_neg below] at hs
        exact b.locals k s t hs ht

theorem store (b : f.Below r g) (hf : Paired f.locals.toList) (hg : Paired g.locals.toList)
    {s t : SlotType} (st : SlotType.Below r s t) (index : Nat) :
    (f.store index s).Follows r (Below r) (g.store index t) := by
  intro g' h
  have target := b.target.store h
  have slots := st.slots
  have length := slots.length_eq
  obtain ⟨room, rfl⟩ := store_ok h
  have room' : index + s.slots.length ≤ f.maxLocals := by rwa [length, b.maxLocals_eq]
  have stored := b.source.store_of_room (r := r) room'
  refine ⟨_, stored, ?_⟩
  constructor
  · exact b.offset_eq
  · exact b.maxLocals_eq
  · exact b.maxStack_eq
  · exact b.source.store stored
  · exact target
  · intro u hu
    rcases mem_overwrite hu with hu | hu | rfl
    · exact b.actual u hu
    · obtain ⟨k, hk, rfl⟩ := List.getElem_of_mem hu
      exact (slots.get (length ▸ hk) hk).actual
    · rfl
  · intro k s' t' hs ht
    refine b.overwrite hf hg slots (Nat.succ_pos _) ?_ hs ht
    rwa [b.size_eq, b.target.size_eq]
  · exact b.stack
  · exact b.thisPending

/-- An object takes the place of what was not initialized. -/
theorem replaceAll (b : f.Below r g) {old new : SlotType} (uninitialized : old.isUninitialized)
    (actual : new.isActual) : (f.replaceAll old new).Below r (g.replaceAll old new) := by
  have usable : old ≠ .top := by
    rintro rfl
    cases uninitialized
  constructor
  · exact b.offset_eq
  · exact b.maxLocals_eq
  · exact b.maxStack_eq
  · exact b.source.replaceAll usable
  · exact b.target.replaceAll usable
  · intro t ht
    obtain ⟨u, hu, rfl⟩ := Array.mem_map.1 ht
    split
    · exact actual
    · exact b.actual u hu
  · intro k s t hs ht
    obtain ⟨s, hs', rfl⟩ := Option.map_eq_some_iff.1 (Array.getElem?_map ▸ hs)
    obtain ⟨t, ht', rfl⟩ := Option.map_eq_some_iff.1 (Array.getElem?_map ▸ ht)
    rcases b.locals k s t hs' ht' with rfl | accepted
    · exact .inl (if_neg usable.symm)
    · have below : SlotType.Below r s t := ⟨b.actual t (Array.mem_of_getElem? ht'), accepted⟩
      exact .inr (below.replace uninitialized actual).accepted
  · change List.Forall₂ _ (f.stack.slots.map _) (g.stack.slots.map _)
    rw [List.forall₂_map_left_iff, List.forall₂_map_right_iff]
    exact b.stack.imp fun _ _ below => below.replace uninitialized actual
  · intro pending
    obtain ⟨pending, other⟩ := (Bool.and_eq_true _ _).mp pending
    exact (Bool.and_eq_true _ _).mpr ⟨b.thisPending pending, other⟩

end Below

/-- Frames in order that have whole values only among their locals. -/
structure Ordered (r : Resolver) (f g : Frame) : Prop extends f.Below r g where
  source_paired : Paired f.locals.toList
  target_paired : Paired g.locals.toList

namespace Ordered

/-- Whatever leaves the locals alone keeps them in whole values. -/
theorem of_below {f' g' : Frame} (o : f.Ordered r g) (below : f'.Below r g')
    (source : f'.locals = f.locals) (target : g'.locals = g.locals) : f'.Ordered r g' :=
  ⟨below, source ▸ o.source_paired, target ▸ o.target_paired⟩

theorem push (o : f.Ordered r g) {s t : SlotType} (st : SlotType.Below r s t) :
    Follows (Ordered r) (f.push s) (g.push t) := by
  intro g' pushed
  obtain ⟨f', pushed', below⟩ := o.toBelow.push st g' pushed
  exact ⟨f', pushed', o.of_below below (push_moves pushed').locals_eq (push_moves pushed).locals_eq⟩

theorem store (o : f.Ordered r g) {s t : SlotType} (st : SlotType.Below r s t) (index : Nat)
    (first : t.isSecond = false) : (f.store index s).Follows r (Ordered r) (g.store index t) := by
  intro g' stored
  obtain ⟨f', stored', below⟩ :=
    o.toBelow.store o.source_paired o.target_paired st index g' stored
  have first' : s.isSecond = false :=
    (SlotType.size_of_accepts st.actual st.accepted).2.2.trans first
  obtain ⟨room, rfl⟩ := store_ok stored
  obtain ⟨room', rfl⟩ := store_ok stored'
  refine ⟨_, stored', below, ?_, ?_⟩
  · exact paired_overwrite o.source_paired (.slots first') (List.cons_ne_nil _ _)
      (o.source.size_eq ▸ room')
  · exact paired_overwrite o.target_paired (.slots first) (List.cons_ne_nil _ _)
      (o.target.size_eq ▸ room)

theorem replaceAll (o : f.Ordered r g) {old : SlotType} (name : String)
    (uninitialized : old.isUninitialized) :
    (f.replaceAll old (.reference name)).Ordered r (g.replaceAll old (.reference name)) where
  toBelow := o.toBelow.replaceAll uninitialized rfl
  source_paired := by
    rw [Frame.replaceAll, Array.toList_map]
    exact o.source_paired.replace uninitialized
  target_paired := by
    rw [Frame.replaceAll, Array.toList_map]
    exact o.target_paired.replace uninitialized

end Ordered
end Frame
end ClassVerifier
