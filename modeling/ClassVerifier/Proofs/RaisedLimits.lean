import ClassVerifier.Proofs.FrameRepresentation
import ClassVerifier.Proofs.SimulatedWalks
import ClassVerifier.Proofs.WidenedFrames

/-! Limits only restrict. A method that is accepted stays accepted when it declares more locals or
more stack, and its frames are what they were, with unusable locals behind them. -/
namespace ClassVerifier
variable {r resolver : Resolver} {c : ClassModel} {method : Method} {code : Code} {m : Body}
  {initial : Frame} {moreLocals moreStack : Nat}

private theorem Frame.padded_add {size : Nat} {locals : List SlotType}
    (room : locals.length ≤ size) : padded (size + moreLocals) locals =
      padded size locals ++ Array.replicate moreLocals .top := by
  rw [padded, padded, List.take_of_length_le room, List.take_of_length_le (by omega),
    Array.append_assoc, Array.replicate_append_replicate, Nat.sub_add_comm room]

namespace StackMap
variable {s : Surroundings} {bytes rest : List UInt8} {previous f : Frame}

/-- The surroundings with so much more room. -/
private def Surroundings.raised (moreLocals moreStack : Nat) (s : Surroundings) : Surroundings :=
  { s with maxLocals := s.maxLocals + moreLocals, maxStack := s.maxStack + moreStack }

/-- Types that fit fit where there is more room. -/
private theorem slots_raised {excess : Defect} {n room room' : Nat} {before after : List SlotType}
    (more : room ≤ room') (h : slots s excess n room before bytes = .ok (after, rest)) :
    slots (s.raised moreLocals moreStack) excess n room' before bytes = .ok (after, rest) := by
  induction n generalizing room room' before bytes with
  | zero => exact h
  | succ n ih =>
    obtain ⟨type, middle, read, h⟩ := Reader.bind_eq_ok.1 h
    refine Reader.bind_eq_ok.2 ⟨type, middle, read, ?_⟩
    split at h
    · cases h
    · next fits =>
      rw [if_neg (by omega)]
      exact ih (Nat.sub_le_sub_right more _) h

/-- A frame's contents do not depend on the limits, once they are within them. -/
private theorem contents_raised {code : UInt8} {locals stack : List SlotType} {pending : Bool}
    (used : previous.used ≤ previous.locals.size)
    (h : contents s previous code bytes = .ok ((locals, stack, pending), rest)) :
    contents (s.raised moreLocals moreStack) (previous.widened moreLocals moreStack) code bytes =
      .ok ((locals, stack, pending), rest) := by
  have depth : s.maxStack ≤ (s.raised moreLocals moreStack).maxStack := Nat.le_add_right _ _
  have size : s.maxLocals ≤ (s.raised moreLocals moreStack).maxLocals := Nat.le_add_right _ _
  unfold contents at h ⊢
  rw [Frame.usedLocals_widened used]
  dsimp only at h ⊢
  by_cases same : code < 64 ∨ code = 251
  · rw [if_pos same] at h ⊢
    exact h
  rw [if_neg same] at h ⊢
  by_cases one : code < 128 ∨ code = 247
  · rw [if_pos one] at h ⊢
    obtain ⟨operand, middle, read, h⟩ := Reader.bind_eq_ok.1 h
    exact Reader.bind_eq_ok.2 ⟨operand, middle, slots_raised depth read, h⟩
  rw [if_neg one] at h ⊢
  by_cases fewer : code < 251
  · rw [if_pos fewer] at h ⊢
    exact h
  rw [if_neg fewer] at h ⊢
  by_cases more : code < 255
  · rw [if_pos more] at h ⊢
    obtain ⟨added, middle, read, h⟩ := Reader.bind_eq_ok.1 h
    exact Reader.bind_eq_ok.2
      ⟨added, middle, slots_raised (Nat.sub_le_sub_right size _) read, h⟩
  · rw [if_neg more] at h ⊢
    obtain ⟨count, _, hc, h⟩ := Reader.bind_eq_ok.1 h
    obtain ⟨locals', _, hl, h⟩ := Reader.bind_eq_ok.1 h
    obtain ⟨height, _, hh, h⟩ := Reader.bind_eq_ok.1 h
    obtain ⟨stack', _, hs, h⟩ := Reader.bind_eq_ok.1 h
    refine Reader.bind_eq_ok.2 ⟨count, _, hc, ?_⟩
    refine Reader.bind_eq_ok.2 ⟨locals', _, slots_raised size hl, ?_⟩
    refine Reader.bind_eq_ok.2 ⟨height, _, hh, ?_⟩
    exact Reader.bind_eq_ok.2 ⟨stack', _, slots_raised depth hs, h⟩

/-- The frame that is read next is the frame that was read, widened. -/
private theorem frame_raised {first : Bool} (admitted : s.Admits previous)
    (h : frame s previous first bytes = .ok (f, rest)) :
    frame (s.raised moreLocals moreStack) (previous.widened moreLocals moreStack) first bytes =
      .ok (f.widened moreLocals moreStack, rest) := by
  have used : previous.used ≤ previous.locals.size :=
    admitted.regular.size_eq ▸ admitted.regular.used_le
  obtain ⟨code, _, hc, h⟩ := Reader.bind_eq_ok.1 h
  obtain ⟨delta, _, hd, h⟩ := Reader.bind_eq_ok.1 h
  refine Reader.bind_eq_ok.2 ⟨code, _, hc, Reader.bind_eq_ok.2 ⟨delta, _, hd, ?_⟩⟩
  have offset : (previous.widened moreLocals moreStack).offset = previous.offset := rfl
  dsimp only at h ⊢
  rw [offset]
  generalize (if first then delta else previous.offset + delta + 1) = offset at h ⊢
  split at h
  · cases h
  · next start =>
    obtain ⟨⟨locals, stack, pending⟩, _, read, h⟩ := Reader.bind_eq_ok.1 h
    obtain ⟨rfl, rfl⟩ := Reader.pure_eq_ok.1 h
    have start' : ¬(!(s.raised moreLocals moreStack).listing.isStart offset) := start
    rw [if_neg start']
    refine Reader.bind_eq_ok.2 ⟨_, _, contents_raised used read, Reader.pure_eq_ok.2 ⟨?_, rfl⟩⟩
    simp only [Surroundings.raised, Frame.widened, Frame.padded_add (contents_ok admitted read).1]

/-- Each frame is read relative to one that is widened already. -/
private theorem framesFrom_raised (admitted : s.Admits initial) {n : Nat}
    {before all : Array Frame} (hb : ∀ f ∈ before, s.Admits f)
    (h : framesFrom s initial n before bytes = .ok (all, rest)) :
    framesFrom (s.raised moreLocals moreStack) (initial.widened moreLocals moreStack) n
      (before.map (·.widened moreLocals moreStack)) bytes =
        .ok (all.map (·.widened moreLocals moreStack), rest) := by
  induction n generalizing before bytes with
  | zero =>
    cases h
    rfl
  | succ n ih =>
    unfold framesFrom at h
    split at h
    · next f middle read =>
      have previous : s.Admits (before.back?.getD initial) := by
        cases last : before.back? with
        | none => exact admitted
        | some last' => exact hb last' (Array.mem_of_back? last)
      have last : (before.map (·.widened moreLocals moreStack)).back?.getD
          (initial.widened moreLocals moreStack) =
            (before.back?.getD initial).widened moreLocals moreStack := by
        rw [Array.back?_map, Option.getD_map]
      have first : (before.map (·.widened moreLocals moreStack)).isEmpty = before.isEmpty := by
        rw [Array.isEmpty, Array.isEmpty, Array.size_map]
      rw [framesFrom, last, first, frame_raised previous read]
      dsimp only
      rw [← Array.map_push]
      refine ih (fun g hg => ?_) h
      rcases Array.mem_push.1 hg with hg | rfl
      · exact hb g hg
      · exact (frame_ok previous read).1
    · cases h

private theorem ofPayload_raised (admitted : s.Admits initial) {payload : Option (List UInt8)}
    {t : StackMap} (h : ofPayload s initial payload = .ok t) :
    ofPayload (s.raised moreLocals moreStack) (initial.widened moreLocals moreStack) payload =
      .ok ⟨t.frames.map (·.widened moreLocals moreStack)⟩ := by
  unfold ofPayload at h
  split at h
  · cases h
    rw [ofPayload, Array.map_empty]
  · next payload =>
    split at h
    · next all read =>
      cases h
      obtain ⟨count, middle, counted, frames⟩ := Reader.bind_eq_ok.1 read
      have frames' : framesFrom (s.raised moreLocals moreStack)
          (initial.widened moreLocals moreStack) count.toNat (Array.map _ #[]) middle = _ :=
        framesFrom_raised admitted nofun frames
      rw [Array.map_empty] at frames'
      have read' : allFrames (s.raised moreLocals moreStack)
          (initial.widened moreLocals moreStack) payload =
            .ok (all.map (·.widened moreLocals moreStack), []) :=
        Reader.bind_eq_ok.2 ⟨count, middle, counted, frames'⟩
      rw [ofPayload, read']
    · cases h
    · cases h

end StackMap

/-- With more room the first frame is the same, widened. -/
private theorem Frame.entry_raised {thisType result : SlotType} {maxLocals maxStack : Nat}
    (h : entry method thisType maxLocals maxStack = .ok (initial, result)) :
    entry method thisType (maxLocals + moreLocals) (maxStack + moreStack) =
      .ok (initial.widened moreLocals moreStack, result) := by
  unfold entry at h ⊢
  split at h
  · cases h
  · next type =>
    dsimp only at h ⊢
    split at h
    · cases h
    · next room =>
      cases h
      rw [if_neg (by omega)]
      simp only [widened, padded_add (Nat.le_of_not_lt room), empty]

/-- The body with other limits. -/
def Code.withLimits (code : Code) (maxLocals maxStack : UInt16) : Code :=
  { code with maxLocals, maxStack }

/-- The method with other limits, if it has a body. -/
def Method.withLimits (method : Method) (maxLocals maxStack : UInt16) : Method :=
  { method with code := method.code.map (·.withLimits maxLocals maxStack) }

/-- The body that is walked over when there is more room. -/
private def Body.withLimits (m : Body) (maxLocals maxStack : UInt16) (moreLocals moreStack : Nat) :
    Body :=
  { m with
    method := m.method.withLimits maxLocals maxStack
    code := m.code.withLimits maxLocals maxStack
    stackMap := ⟨m.stackMap.frames.map (·.widened moreLocals moreStack)⟩ }

section
variable {maxLocals maxStack : UInt16}
  (locals : maxLocals.toNat = code.maxLocals.toNat + moreLocals)
  (stack : maxStack.toNat = code.maxStack.toNat + moreStack)
include locals stack

/-- Every table passes its checks as before. -/
private theorem Code.Prepared.withLimits (p : code.Prepared r c method m initial) :
    (code.withLimits maxLocals maxStack).Prepared r c (method.withLimits maxLocals maxStack)
      (m.withLimits maxLocals maxStack moreLocals moreStack)
      (initial.widened moreLocals moreStack) where
  owner_eq := p.owner_eq
  method_eq := congrArg (·.withLimits maxLocals maxStack) p.method_eq
  code_eq := congrArg (·.withLimits maxLocals maxStack) p.code_eq
  thisType_eq := p.thisType_eq
  length_ok := p.length_ok
  listing_eq := p.listing_eq
  entry_eq := by
    change Frame.entry method _ maxLocals.toNat maxStack.toNat = _
    rw [locals, stack]
    exact Frame.entry_raised p.entry_eq
  handlers_ok := checkHandlers_ok.2 fun h hh => checkHandlers_ok.1 p.handlers_ok h hh
  variables_ok := checkVariables_ok.2 fun v hv => checkVariables_ok.1 p.variables_ok v hv
  stackMap_eq := by
    change StackMap.ofPayload ⟨maxLocals.toNat, maxStack.toNat, m.listing, c.pool⟩ _ _ = _
    rw [locals, stack]
    exact StackMap.ofPayload_raised p.admits_initial p.stackMap_eq
  range_eq := p.range_eq

end

/-- A widened frame is recorded in place of the frame it comes from. -/
private theorem Frame.replaces_widened (f : Frame) :
    (f.widened moreLocals moreStack).Replaces r (fun f g => f = g.widened moreLocals moreStack)
      f where
  offset_eq := rfl
  flows := by rintro _ g rfl flows; exact flows.widened
  adopt := by rintro _ g rfl; rfl

/-- The recorded frames have grown with the method, and nothing else in the tables has changed. -/
private theorem Body.relaxedBy_withLimits (this : ∃ name, m.thisType = .reference name)
    (maxLocals maxStack : UInt16) (moreLocals moreStack : Nat) :
    m.RelaxedBy r (fun f g => f = g.widened moreLocals moreStack)
      (m.withLimits maxLocals maxStack moreLocals moreStack) ∧
    List.Forall₂ (Frame.Replaces r fun f g => f = g.widened moreLocals moreStack)
      (m.withLimits maxLocals maxStack moreLocals moreStack).stackMap.frames.toList
      m.stackMap.frames.toList := by
  have replaced : List.Forall₂ (Frame.Replaces r fun f g => f = g.widened moreLocals moreStack)
      (m.withLimits maxLocals maxStack moreLocals moreStack).stackMap.frames.toList
      m.stackMap.frames.toList := by
    rw [Body.withLimits, Array.toList_map, List.forall₂_map_left_iff]
    exact List.forall₂_same.2 fun f _ => f.replaces_widened
  exact ⟨⟨this, rfl, rfl, fun _ listed => listed, fun _ covered => covered,
    recorded_of_replaced replaced⟩, replaced⟩

/-- The locals in use are there in every frame that is noted. -/
private theorem Method.used_le_of_noted (body : method.code = some code)
    (accepted : (method.verify c).run r = .ok ()) {noted : Frame × UInt8}
    (h : noted ∈ (method.verify c).notes r) : noted.1.used ≤ noted.1.locals.size := by
  obtain ⟨m, initial, vs, prepared, visits⟩ := prepared_of_verify body accepted
  have p := Code.prepare_ok prepared
  rw [(p.verified body visits).2] at h
  obtain ⟨v, hv, rfl⟩ := List.mem_map.1 h
  have regular := ((p.typing visits).checked v hv).regular
  exact regular.size_eq ▸ regular.used_le

/-- A method that is accepted is accepted with any larger limits. In front of each instruction the
walk then holds the frame that it held before, and behind the locals of that frame, in use or not,
there are unusable ones. -/
theorem verify_withLimits (body : method.code = some code)
    (accepted : (method.verify c).run (resolver.within c) = .ok ()) (maxLocals maxStack : UInt16)
    (locals : code.maxLocals ≤ maxLocals) (stack : code.maxStack ≤ maxStack) :
    ((method.withLimits maxLocals maxStack).verify c).run (resolver.within c) = .ok () ∧
      ((method.withLimits maxLocals maxStack).verify c).notes (resolver.within c) =
        ((method.verify c).notes (resolver.within c)).map (Prod.map
          (·.widened (maxLocals.toNat - code.maxLocals.toNat)
            (maxStack.toNat - code.maxStack.toNat)) id) ∧
      ∀ noted ∈ (method.verify c).notes (resolver.within c),
        noted.1.used ≤ noted.1.locals.size := by
  have body' : (method.withLimits maxLocals maxStack).code =
      some (code.withLimits maxLocals maxStack) := by
    rw [Method.withLimits, body, Option.map_some]
  have locals' := (Nat.add_sub_of_le (UInt16.le_iff_toNat_le.1 locals)).symm
  have stack' := (Nat.add_sub_of_le (UInt16.le_iff_toNat_le.1 stack)).symm
  obtain ⟨accepted', alike⟩ := Method.verify_simulated Frame.simulation_widened body body'
    (fun m initial p =>
      have ⟨relaxed, replaced⟩ := Body.relaxedBy_withLimits ⟨c.name, p.thisType_eq⟩ maxLocals
        maxStack (maxLocals.toNat - code.maxLocals.toNat) (maxStack.toNat - code.maxStack.toNat)
      ⟨m.withLimits maxLocals maxStack _ _, _, p.withLimits locals' stack', relaxed, replaced, rfl⟩)
    accepted
  exact ⟨accepted', notes_eq_map _ alike, fun _ => Method.used_le_of_noted body accepted⟩

/-- Two more locals and seven more operands for a method that keeps a long in its last locals. -/
theorem verify_withLimits_allocating :
    (allocating.verify allocator).run (Resolver.within (fun _ => .unknown) allocator) = .ok () ∧
      ((allocating.withLimits 5 9).verify allocator).run
        (Resolver.within (fun _ => .unknown) allocator) = .ok () ∧
      ((allocating.withLimits 5 9).verify allocator).notes
          (Resolver.within (fun _ => .unknown) allocator) =
        ((allocating.verify allocator).notes
          (Resolver.within (fun _ => .unknown) allocator)).map (Prod.map (·.widened 2 7) id) := by
  have body : allocating.code = some allocatingCode := rfl
  have accepted : (allocating.verify allocator).run
      (Resolver.within (fun _ => .unknown) allocator) = .ok () := by decide +kernel
  obtain ⟨accepted', notes, _⟩ :=
    verify_withLimits body accepted 5 9 (by decide) (by decide)
  exact ⟨accepted, accepted', notes⟩

end ClassVerifier
