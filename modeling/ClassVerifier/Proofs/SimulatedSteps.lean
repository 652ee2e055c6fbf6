import ClassVerifier.Proofs.Simulation
import ClassVerifier.Proofs.Steps

/-! Instructions keep simulations. Where an instruction succeeds on a frame, it succeeds in the same
way on every frame that simulates it, even among the recorded frames and handlers of another body,
as long as those ask for no more. -/
namespace ClassVerifier
open ClassVerifier.Frame (Simulation Taken)
variable {r : Resolver} {S : SlotType → SlotType → Prop} {R : Frame → Frame → Prop} {m n : Body}
  {f g : Frame}

namespace Body

/-- The instructions of one body among the handlers, recorded frames and limits of another. -/
def withTables (m n : Body) : Body :=
  { m with
    method := n.method
    code := n.code
    stackMap := n.stackMap
    protectedStart := n.protectedStart
    protectedStop := n.protectedStop }

/-- The tables of the second body ask for nothing that those of the first one did not ask for, with
frames related as given. -/
structure RelaxedBy (r : Resolver) (R : Frame → Frame → Prop) (m n : Body) : Prop where
  thisType : ∃ name, m.thisType = .reference name
  isConstructor_eq : n.method.isConstructor = m.method.isConstructor
  bytes_eq : n.code.bytes = m.code.bytes
  handlers : ∀ h ∈ n.code.handlers, h ∈ m.code.handlers
  isProtected : ∀ offset, n.isProtected offset → m.isProtected offset
  recorded : ∀ {target : Int} {recorded : Frame}, m.stackMap.frameAt? target = some recorded →
    ∃ recorded', n.stackMap.frameAt? target = some recorded' ∧
      ∀ f g : Frame, R f g → g.Flows r recorded → f.Flows r recorded'

/-- Control leaves related frames in the same way. -/
def Related (R : Frame → Frame → Prop) (p q : Flow × Frame) : Prop := p.1 = q.1 ∧ R p.2 q.2

section Operations
variable (h : Simulation r S R)
include h

private theorem follows_load (b : R f g) (kind : ValueKind) (index : Nat) :
    (load kind index f).Follows r R (load kind index g) := by
  cases kind with
  | number number =>
    have read : (loadNumber number index f).Follows r R (loadNumber number index g) := by
      unfold loadNumber
      split
      · next second pair =>
        refine (h.loadPair index b ?_ ?_).bind fun _ _ _ => .pure b
        · cases number <;> simp [NumberKind.type, SlotType.accepts]
        · cases number <;> cases pair <;> simp [SlotType.accepts]
      · refine (h.load index b ?_).bind fun _ _ read => .pure read.1.2
        cases number <;> simp [NumberKind.type, SlotType.accepts]
    exact read.bind fun _ _ next => .lift (h.pushSame next (Values.number number).actual)
  | reference =>
    refine (h.load index b ?_).bind fun _ _ read => .lift (h.push read.1.2 read.1.1)
    simp [SlotType.accepts, SlotType.isReference, SlotType.isUninitialized]

private theorem follows_store (b : R f g) (kind : ValueKind) (index : Nat) :
    (store kind index f).Follows r R (store kind index g) := by
  cases kind with
  | number number =>
    have same := h.refl ((Values.number number).actual _ List.mem_cons_self)
    exact (h.popAll b _).bind fun _ _ next => h.store index next same (by cases number <;> rfl)
  | reference =>
    refine (h.popExpected b _).bind_of_ok fun p q _ popped taken => ?_
    have whole : q.1.IsWhole :=
      SlotType.IsWhole.of_accepts ⟨rfl, rfl⟩ (by simp) (Frame.popExpected_moves popped).1
    exact h.store index taken.2 taken.1 whole.2

private theorem follows_increment (b : R f g) (index : Nat) :
    (increment index f).Follows r R (increment index g) := by
  refine (h.load index b (by simp [SlotType.accepts])).bind fun p q read => ?_
  have whole : q.1.IsWhole := SlotType.IsWhole.of_accepts ⟨rfl, rfl⟩ (by simp) read.2
  exact h.store index read.1.2 read.1.1 whole.2

private theorem follows_popArray (b : R f g) (kind : ElementKind) :
    (popArray kind f).Follows r (fun p q => Taken S R p q ∧ kind.isElementOf q.1)
      (popArray kind g) := by
  refine (h.popExpected b _).bind fun _ _ index => ?_
  refine (h.popExpected index.2 _).bind fun _ _ array => ?_
  exact .require (h.isElementOf array.1) fun holds => .pure ⟨array, holds⟩

private theorem follows_arrayLoad (b : R f g) (kind : ElementKind) :
    (arrayLoad kind f).Follows r R (arrayLoad kind g) := by
  refine (follows_popArray h b kind).bind fun p q popped => ?_
  obtain ⟨⟨related, next⟩, holds⟩ := popped
  have elements : (liftM (p.2.pushAll kind.slots) : Check Frame).Follows r R
      (liftM (q.2.pushAll kind.slots)) := .lift (h.pushSame next (Values.element kind).actual)
  cases kind with
  | reference =>
    exact (Check.Follows.lift (h.elementType related holds)).bind fun _ _ element =>
      .lift (h.push next element)
  | _ => exact elements

private theorem follows_duplicate (b : R f g) (count under : Nat) :
    (duplicate count under f).Follows r R (duplicate count under g) := by
  refine (h.popSlots b count).bind fun _ _ upper => ?_
  refine (h.popSlots upper.2 under).bind fun _ _ lower => .lift (h.pushAll lower.2 ?_)
  exact List.rel_reverse (List.rel_append (List.rel_append upper.1 lower.1) upper.1)

private theorem follows_swap (b : R f g) : (swap f).Follows r R (swap g) := by
  refine (h.popSlots b 1).bind fun _ _ upper => ?_
  refine (h.popSlots upper.2 1).bind fun _ _ lower => .lift (h.pushAll lower.2 ?_)
  exact List.rel_append upper.1 lower.1

private theorem follows_loadConstant (b : R f g) (index : UInt16) (wide : Bool) :
    Follows R ((m.withTables n).loadConstant index wide f) (m.loadConstant index wide g) :=
  .same fun _ _ => .same fun _ slots => h.pushSame b (Values.constant slots).actual

private theorem follows_checkSwitch (b : R f g) (table : Switch) :
    ((m.withTables n).checkSwitch table f).Follows r R (m.checkSwitch table g) :=
  .same fun _ _ => (h.popAll b _).bind fun _ _ next => .same fun _ _ => .pure next

private theorem follows_returnValue (b : R f g) (kind : ValueKind) :
    ((m.withTables n).returnValue kind f).Follows r R (m.returnValue kind g) := by
  have rest {p q : SlotType × Frame} (taken : Taken S R p q) : (do
      .require (m.resultType ≠ .bogus) .unexpectedReturnValue
      .require (← m.resultType.accepts p.1) .badReturnType
      return p.2 : Check Frame).Follows r R (do
      .require (m.resultType ≠ .bogus) .unexpectedReturnValue
      .require (← m.resultType.accepts q.1) .badReturnType
      return q.2) :=
    .same fun _ _ => .test (h.accepts taken.1) nofun fun _ => .same fun _ _ => .pure taken.2
  cases kind with
  | number number =>
    refine (h.popAll b _).bind fun f' g' next => ?_
    have taken : Taken S R (number.type, f') (number.type, g') :=
      ⟨h.refl ((Values.number number).actual _ List.mem_cons_self), next⟩
    exact rest taken
  | reference => exact (h.popExpected b _).bind fun _ _ taken => rest taken

private theorem follows_returnVoid (t : m.RelaxedBy r R n) (b : R f g) :
    Follows R ((m.withTables n).returnVoid f) (m.returnVoid g) := by
  unfold returnVoid
  change Follows R (if m.resultType ≠ .bogus then _ else
    if n.method.isConstructor && f.thisPending then _ else _) _
  rw [t.isConstructor_eq]
  split
  · exact .error
  · by_cases pending : m.method.isConstructor && g.thisPending
    · rw [if_pos pending]
      exact .error
    · have settled : ¬(m.method.isConstructor && f.thisPending) := by
        simp only [Bool.and_eq_true] at pending ⊢
        exact fun both => pending (both.imp_right (h.thisPending b))
      rw [if_neg pending, if_neg settled]
      exact .ok b

private theorem follows_allocate (b : R f g) (index : UInt16) :
    Follows R ((m.withTables n).allocate index f) (m.allocate index g) := by
  refine .same fun type _ => ?_
  rw [h.offset_eq b]
  split
  · exact h.push b (h.refl rfl)
  · exact .error

private theorem follows_newArray (b : R f g) (code : UInt8) :
    (newArray code f).Follows r R (newArray code g) :=
  .same fun _ _ => (h.popAll b _).bind fun _ _ next => .lift (h.push next (h.refl rfl))

private theorem follows_newReferenceArray (b : R f g) (index : UInt16) :
    ((m.withTables n).newReferenceArray index f).Follows r R (m.newReferenceArray index g) :=
  .same fun _ _ => .same fun _ _ => (h.popAll b _).bind fun _ _ next => .same fun _ _ =>
    .lift (h.push next (h.refl rfl))

omit h in
/-- A class entry names a type that a slot can have. -/
private theorem classType_reference {index : UInt16} {type : SlotType}
    (found : (liftM (m.classType index) : Check SlotType).run r = .ok type) :
    ∃ name, type = .reference name := by
  obtain ⟨name, _, rfl⟩ := classType_ok (Check.lift_ok.1 found)
  exact ⟨name, rfl⟩

private theorem follows_newMultiArray (b : R f g) (index : UInt16) (dimensions : Nat) :
    ((m.withTables n).newMultiArray index dimensions f).Follows r R
      (m.newMultiArray index dimensions g) := by
  refine .same fun type array => .same fun _ _ => .same fun _ _ => (h.popAll b _).bind
    fun _ _ next => .lift (h.push next (h.refl ?_))
  obtain ⟨_, rfl⟩ := classType_reference array
  rfl

private theorem follows_arrayLength (b : R f g) :
    (arrayLength f).Follows r R (arrayLength g) := by
  refine (h.popExpected b _).bind fun p q array => .require (fun held => ?_) fun _ => ?_
  · rw [Bool.or_eq_true, decide_eq_true_eq] at held ⊢
    exact h.isArray array.1 held
  · exact .lift (h.push array.2 (h.refl rfl))

private theorem follows_testObject (b : R f g) (index : UInt16) {result : SlotType → SlotType}
    (actual : ∀ name, (result (.reference name)).isActual) :
    ((m.withTables n).testObject index result f).Follows r R (m.testObject index result g) := by
  refine .same fun type found => (h.popAll b _).bind fun _ _ next =>
    .lift (h.push next (h.refl ?_))
  obtain ⟨name, rfl⟩ := classType_reference found
  exact actual name

private theorem follows_checkHandler (t : m.RelaxedBy r R n) (b : R f g) (pending : Bool)
    (handler : Handler) : ((m.withTables n).checkHandler f pending handler).Follows r
      (fun _ _ => True) (m.checkHandler g pending handler) := by
  have seen : Follows R ((m.withTables n).handlerFrame handler f pending)
      (m.handlerFrame handler g pending) := by
    refine .same fun caught type => h.push (h.inHandler pending b) (h.refl ?_)
    obtain ⟨_, rfl⟩ := Handler.caughtType_ok type
    rfl
  have recorded : ((m.withTables n).stackMap.frameAt handler.target.toNat).Follows r
      (fun recorded' recorded => ∀ f g : Frame, R f g → g.Flows r recorded → f.Flows r recorded')
      (m.stackMap.frameAt handler.target.toNat) := by
    intro recorded found
    obtain ⟨recorded', found', flows⟩ := t.recorded (Check.ofOption_ok.1 found)
    exact ⟨recorded', Check.ofOption_ok.2 found', flows⟩
  refine (Check.Follows.lift seen).bind fun f' g' related => recorded.bind fun _ _ flows => ?_
  exact .test (flows f' g' related) nofun fun _ => .pure trivial

/-- The handlers that see a frame can see every frame that simulates it. -/
private theorem follows_checkHandlers (t : m.RelaxedBy r R n) (b : R f g) (pending : Bool) :
    ((m.withTables n).checkHandlers f pending).Follows r (fun _ _ => True)
      (m.checkHandlers g pending) := by
  intro _ checked
  refine ⟨(), checkEach_ok.2 fun handler covering => ?_, trivial⟩
  obtain ⟨listed, covers⟩ := List.mem_filter.1 covering
  rw [h.offset_eq b] at covers
  have checked := checkHandler_of_checkHandlers checked (t.handlers handler listed) covers
  obtain ⟨_, checked', _⟩ := follows_checkHandler h t b pending handler _ checked
  exact checked'

/-- What a field is assigned to may simulate what it was assigned to. -/
private theorem accepts_assignee {s t target : SlotType} (related : S s t)
    {name descriptor : String}
    (accepted : (target.accepts (m.assignee target t name descriptor)).run r = .ok true) :
    (target.accepts (m.assignee target s name descriptor)).run r = .ok true := by
  by_cases this : t = .uninitializedThis
  · obtain rfl := h.eq_of_uninitialized related (.inr (this ▸ rfl))
    exact accepted
  · have other : s ≠ .uninitializedThis := by
      rintro rfl
      exact this (h.eq_of_uninitialized related (.inl rfl)).symm
    rw [assignee, if_neg fun both => this both.1] at accepted
    rw [assignee, if_neg fun both => other both.1]
    exact h.accepts related accepted

private theorem follows_accessField (b : R f g) (access : FieldAccess) (index : UInt16) :
    ((m.withTables n).accessField access index f).Follows r R (m.accessField access index g) := by
  refine .same fun _ _ => .same fun name _ => .same fun descriptor _ => .same fun type _ => ?_
  refine .same fun owner _ => .same fun _ _ => ?_
  have actual := (Values.slotsOf type).actual
  cases access with
  | getStatic => exact .lift (h.pushSame b actual)
  | putStatic => exact h.popAll b _
  | getField =>
    exact (h.popExpected b _).bind fun _ _ taken => .lift (h.pushSame taken.2 actual)
  | putField =>
    refine (h.popAll b _).bind fun _ _ next => (Check.Follows.lift (h.pop next)).bind ?_
    rintro ⟨s, f'⟩ ⟨t, g'⟩ ⟨related, rest⟩
    exact .test (accepts_assignee h related) nofun fun _ => .same fun _ _ => .pure rest

private theorem follows_pushResult (b : R f g) (name : String) (result : Option FieldType) :
    Follows R (pushResult name result f) (pushResult name result g) := by
  cases result with
  | none => exact .ok b
  | some type =>
    unfold pushResult
    dsimp only
    split
    · exact .error
    · exact h.pushSame b (Values.slotsOf type).actual

variable (t : m.RelaxedBy r R n)
include t

omit h in
/-- Handlers that end in a throw are explored in the same code. -/
private theorem RelaxedBy.follows_checkThrows (offset : Nat) :
    Follows (fun _ _ => True) ((m.withTables n).checkThrows ((m.withTables n).handlersAt offset))
      (m.checkThrows (m.handlersAt offset)) := by
  intro _ throws
  refine ⟨(), checkThrows_ok.2 fun handler covering => ?_, trivial⟩
  obtain ⟨listed, covers⟩ := List.mem_filter.1 covering
  have covering : handler ∈ m.handlersAt offset :=
    List.mem_filter.2 ⟨t.handlers handler listed, covers⟩
  exact t.bytes_eq ▸ checkThrows_ok.1 throws handler covering

private theorem follows_construct (b : R f g) (owner : String) :
    ((m.withTables n).construct owner f).Follows r (Related R) (m.construct owner g) := by
  refine (h.popExpected b _).bind ?_
  rintro ⟨s, f'⟩ ⟨receiver, g'⟩ ⟨related, rest⟩
  have seen (pending : Bool) := follows_checkHandlers h t rest pending
  have covered := t.isProtected g'.offset
  cases receiver with
  | uninitializedThis =>
    obtain rfl := h.eq_of_uninitialized related (.inr rfl)
    obtain ⟨name, this⟩ := t.thisType
    have after : Related R (.initialized, f'.replaceAll .uninitializedThis m.thisType)
        (.initialized, g'.replaceAll .uninitializedThis m.thisType) :=
      ⟨rfl, this ▸ h.replaceAll name rest rfl⟩
    refine .same fun _ _ => ?_
    rw [h.offset_eq rest]
    refine .branch covered (fun _ => ?_) (.skip fun _ _ => .skip fun _ _ => .pure after)
      (.pure after)
    refine (Check.Follows.lift (t.follows_checkThrows g'.offset)).bind fun _ _ _ => ?_
    exact (seen true).bind fun _ _ _ => .pure after
  | uninitialized offset =>
    obtain rfl := h.eq_of_uninitialized related (.inr rfl)
    have bytes : (m.withTables n).code.bytes = m.code.bytes := t.bytes_eq
    dsimp only
    rw [bytes]
    refine .same fun index _ => .same fun created type => .same fun _ _ => ?_
    obtain ⟨name, rfl⟩ := classType_reference type
    have after : Related R (.next, f'.replaceAll (.uninitialized offset) (.reference name))
        (.next, g'.replaceAll (.uninitialized offset) (.reference name)) :=
      ⟨rfl, h.replaceAll name rest rfl⟩
    rw [h.offset_eq rest]
    exact .when covered (fun _ => seen false) (.pure after)
  | _ => exact .reject

private theorem follows_popReceiver (b : R f g) (kind : CallKind) (owner : Option String)
    (name : String) : ((m.withTables n).popReceiver kind owner name f).Follows r (Related R)
      (m.popReceiver kind owner name g) := by
  unfold popReceiver
  split
  · exact .pure ⟨rfl, b⟩
  · exact .pure ⟨rfl, b⟩
  · split
    · exact follows_construct h t b _
    · exact (h.popExpected b _).bind fun _ _ taken => .pure ⟨rfl, taken.2⟩

private theorem follows_call (b : R f g) (kind : CallKind) (index : UInt16) :
    ((m.withTables n).call kind index f).Follows r (Related R) (m.call kind index g) := by
  refine .same fun _ _ => .same fun name _ => .same fun _ _ => .same fun type _ => ?_
  refine .same fun owner _ => .same fun _ _ => .same fun _ _ => ?_
  refine (h.popAll b _).bind fun _ _ next => ?_
  refine (follows_popReceiver h t next kind owner name).bind ?_
  rintro ⟨flow, f'⟩ ⟨_, g'⟩ ⟨rfl, rest⟩
  exact (Check.Follows.lift (follows_pushResult h rest name type.result)).bind fun _ _ after =>
    .pure ⟨rfl, after⟩

/-- What an instruction does to a frame, it does to every frame that simulates it. -/
theorem RelaxedBy.follows_effect (b : R f g) (i : Instruction) :
    ((m.withTables n).effect i f).Follows r (Related R) (m.effect i g) := by
  cases i with
  | nop | jump => exact .pure ⟨rfl, b⟩
  | const kind =>
    cases kind with
    | number number =>
      have pushed := h.pushSame b (Values.number number).actual
      exact (Check.Follows.lift pushed).bind fun _ _ next => .pure ⟨rfl, next⟩
    | reference =>
      have pushed := h.push b (h.refl (t := .null) rfl)
      exact (Check.Follows.lift pushed).bind fun _ _ next => .pure ⟨rfl, next⟩
  | loadConstant index | loadWideConstant index =>
    have loaded := fun wide => follows_loadConstant (m := m) (n := n) h b index wide
    exact (Check.Follows.lift (loaded _)).bind fun _ _ next => .pure ⟨rfl, next⟩
  | load kind index =>
    exact (follows_load h b kind _).bind fun _ _ next => .pure ⟨rfl, next⟩
  | store kind index =>
    exact (follows_store h b kind _).bind fun _ _ next => .pure ⟨rfl, next⟩
  | increment index =>
    exact (follows_increment h b _).bind fun _ _ next => .pure ⟨rfl, next⟩
  | arrayLoad kind => exact (follows_arrayLoad h b kind).bind fun _ _ next => .pure ⟨rfl, next⟩
  | arrayStore kind =>
    refine .bind (R := R) ?_ fun _ _ next => .pure ⟨rfl, next⟩
    refine (h.popAll b _).bind fun _ _ value => ?_
    exact (follows_popArray h value kind).bind fun _ _ array => .pure array.1.2
  | discard count => exact (h.popSlots b count).bind fun _ _ taken => .pure ⟨rfl, taken.2⟩
  | duplicate count under =>
    exact (follows_duplicate h b _ _).bind fun _ _ next => .pure ⟨rfl, next⟩
  | swap => exact (follows_swap h b).bind fun _ _ next => .pure ⟨rfl, next⟩
  | compute operands result =>
    refine (h.popAll b _).bind fun _ _ taken => ?_
    have pushed := h.pushSame taken (Values.number result).actual
    exact (Check.Follows.lift pushed).bind fun _ _ next => .pure ⟨rfl, next⟩
  | branch test target => exact (h.popAll b _).bind fun _ _ next => .pure ⟨rfl, next⟩
  | subroutine opcode widened => cases widened <;> exact .reject
  | switch table => exact (follows_checkSwitch h b table).bind fun _ _ next => .pure ⟨rfl, next⟩
  | returnValue kind =>
    exact (follows_returnValue h b kind).bind fun _ _ next => .pure ⟨rfl, next⟩
  | returnVoid =>
    exact (Check.Follows.lift (follows_returnVoid h t b)).bind fun _ _ next => .pure ⟨rfl, next⟩
  | field access index =>
    exact (follows_accessField h b access index).bind fun _ _ next => .pure ⟨rfl, next⟩
  | call kind index => exact follows_call h t b kind index
  | new index =>
    exact (Check.Follows.lift (follows_allocate h b index)).bind fun _ _ next => .pure ⟨rfl, next⟩
  | newArray code => exact (follows_newArray h b code).bind fun _ _ next => .pure ⟨rfl, next⟩
  | newReferenceArray index =>
    exact (follows_newReferenceArray h b index).bind fun _ _ next => .pure ⟨rfl, next⟩
  | newMultiArray index dimensions =>
    exact (follows_newMultiArray h b index _).bind fun _ _ next => .pure ⟨rfl, next⟩
  | arrayLength => exact (follows_arrayLength h b).bind fun _ _ next => .pure ⟨rfl, next⟩
  | throw | monitor => exact (h.popAll b _).bind fun _ _ next => .pure ⟨rfl, next⟩
  | cast index =>
    exact (follows_testObject h b index fun _ => rfl).bind fun _ _ next => .pure ⟨rfl, next⟩
  | isInstance index =>
    exact (follows_testObject h b index fun _ => rfl).bind fun _ _ next => .pure ⟨rfl, next⟩

/-- So it is with the jump targets, which are checked against what comes out. -/
theorem RelaxedBy.follows_execute (b : R f g) (i : Instruction) :
    ((m.withTables n).execute i f).Follows r (Related R) (m.execute i g) := by
  rintro ⟨_, g'⟩ executed
  obtain ⟨effect, targets⟩ := execute_ok.1 executed
  obtain ⟨⟨flow, f'⟩, effect', rfl, related⟩ := t.follows_effect h b i _ effect
  refine ⟨(flow, f'), execute_ok.2 ⟨effect', fun target ht => ?_⟩, rfl, related⟩
  obtain ⟨recorded, found, inside, flows⟩ := targets target ht
  obtain ⟨recorded', found', onward⟩ := t.recorded found
  exact ⟨recorded', found', inside, onward f' g' related flows⟩

/-- A step checks the handlers too, in front of a store and behind every other instruction. -/
theorem RelaxedBy.follows_step (b : R f g) (i : Instruction) :
    ((m.withTables n).step i f).Follows r (Related R) (m.step i g) := by
  have covered {p : Bool} : (m.withTables n).isProtected g.offset && p →
      m.isProtected g.offset && p := by
    simp only [Bool.and_eq_true]
    exact And.imp_left (t.isProtected g.offset)
  unfold step
  rw [h.offset_eq b]
  refine .when covered (fun _ => follows_checkHandlers h t b false) ?_
  refine (t.follows_execute h b i).bind ?_
  rintro ⟨flow, f'⟩ ⟨_, g'⟩ ⟨rfl, after⟩
  exact .when covered (fun _ => follows_checkHandlers h t after _) (.pure ⟨rfl, after⟩)

end Operations
end Body
end ClassVerifier
