import ClassVerifier.Proofs.Faults
import ClassVerifier.Proofs.InstructionLengths
import ClassVerifier.Proofs.RecordedFrames
import ClassVerifier.Proofs.Steps

/-! Steps stop only for faults that can be expected, as long as the frame and the recorded frames
are regular, what is not initialized was allocated, and the instruction was read from code. -/
namespace ClassVerifier
open Check

variable {r : Resolver} {m : Body} {f g : Frame}

namespace Body

theorem ordinary_constantSlots (pool : ConstantPool) (index : UInt16) {wide : Bool}
    {kind : ConstantKind} (loadable : kind ∈ loadableKinds wide) :
    Ordinary (constantSlots pool index wide kind) := by
  cases kind with
  | dynamic =>
    refine .bind (pool.ordinary_memberDescriptor index) fun descriptor _ => ?_
    split
    · exact .error trivial
    · exact .ite (fun _ => .ok _) fun _ => .error trivial
  | fieldRef | methodRef | interfaceMethodRef | invokeDynamic | other =>
    cases wide <;> simp [loadableKinds] at loadable
  | _ => exact .ok _

theorem ordinary_loadConstant (m : Body) (index : UInt16) (wide : Bool) (f : Frame) :
    Ordinary (m.loadConstant index wide f) := by
  refine .bind (ConstantPool.ordinary_kindAmong _ _ _) fun kind h => ?_
  have loadable : kind ∈ loadableKinds wide := by
    obtain ⟨c, _, h⟩ := except_bind_ok.1 h
    split at h
    · cases h
      assumption
    · cases h
  exact .bind (ordinary_constantSlots _ _ loadable) fun _ _ => f.ordinary_pushAll _

theorem orderly_load (hf : f.Regular) (kind : ValueKind) (index : Nat) :
    (load kind index f).Orderly r := by
  cases kind with
  | number number =>
    refine .bind ?_ fun g _ => .lift (g.ordinary_pushAll _)
    unfold loadNumber
    split
    · exact .bind (hf.orderly_loadPair _ _ _) fun _ _ => .pure _
    · exact .bind (hf.orderly_load _ _) fun _ _ => .pure _
  | reference => exact .bind (hf.orderly_load _ _) fun _ _ => .lift (Frame.ordinary_push _ _)

theorem orderly_store (hf : f.Regular) (kind : ValueKind) (index : Nat) :
    (store kind index f).Orderly r := by
  cases kind with
  | number number =>
    refine .bind (f.orderly_popAll _) fun g h => ?_
    obtain ⟨_, _, moves⟩ := Frame.popAll_moves h
    exact (moves.regular hf).orderly_store _ _
  | reference =>
    refine .bind (f.orderly_popExpected _) fun popped h => ?_
    exact ((Frame.popExpected_moves h).2.regular hf).orderly_store _ _

theorem orderly_increment (hf : f.Regular) (index : Nat) : (increment index f).Orderly r := by
  refine .bind (hf.orderly_load _ _) fun loaded h => ?_
  obtain ⟨same, _⟩ := Frame.load_ok hf (by simp [SlotType.accepts]) h
  exact (same ▸ hf : loaded.2.Regular).orderly_store _ _

theorem orderly_popArray (kind : ElementKind) (f : Frame) : (popArray kind f).Orderly r := by
  refine .bind (f.orderly_popExpected _) fun index _ => ?_
  refine .bind (index.2.orderly_popExpected _) fun array _ => ?_
  exact .bind (.require fun _ => trivial) fun _ _ => .pure _

theorem orderly_arrayLoad (kind : ElementKind) (f : Frame) : (arrayLoad kind f).Orderly r := by
  refine .bind (orderly_popArray kind f) fun popped _ => ?_
  cases kind with
  | reference =>
    refine .bind (.lift ?_) fun t _ => .lift (Frame.ordinary_push _ t)
    unfold elementType
    split
    · exact .ok _
    · cases popped.1.component? with
      | none => exact .error trivial
      | some t => exact .ok t
  | _ => exact .lift (Frame.ordinary_pushAll _ _)

theorem orderly_duplicate (count under : Nat) (f : Frame) : (duplicate count under f).Orderly r :=
  .bind (f.orderly_popSlots _) fun upper _ => .bind (upper.2.orderly_popSlots _) fun lower _ =>
    .lift (lower.2.ordinary_pushAll _)

theorem orderly_swap (f : Frame) : (swap f).Orderly r :=
  .bind (f.orderly_popSlots _) fun upper _ => .bind (upper.2.orderly_popSlots _) fun lower _ =>
    .lift (lower.2.ordinary_pushAll _)

/-- A table has no more keys than the code has room for. -/
theorem orderly_checkSwitch {table : Switch} (read : (Instruction.switch table).isEncodable)
    (f : Frame) : (m.checkSwitch table f).Orderly r := by
  refine .bind (.require fun _ => trivial) fun _ _ => .bind (f.orderly_popAll _) fun _ _ => ?_
  refine .bind (.lift ?_) fun _ _ => .pure _
  obtain ⟨padding, cases, targets⟩ := table
  cases cases with
  | table low high =>
    refine .ite (fun _ => .error trivial) fun ordered => .ite (fun wraps => ?_) fun _ => .ok _
    rw [Instruction.isEncodable, decide_eq_true_eq] at read
    have same : Instruction.signed 32 (high - low + 1) = high - low + 1 := by
      rw [Instruction.signed, show Nat.pow 2 32 = 4294967296 from rfl]
      apply Int.bmod_eq_of_le <;> omega
    exact absurd wraps (by omega)
  | lookup count keys =>
    exact .ite (fun _ => .error trivial) fun _ => .ite (fun _ => .ok _) fun _ => .error trivial

theorem orderly_returnValue (m : Body) (kind : ValueKind) (f : Frame) :
    (m.returnValue kind f).Orderly r := by
  have rest (popped : SlotType × Frame) : (do
      .require (m.resultType ≠ .bogus) .unexpectedReturnValue
      .require (← m.resultType.accepts popped.1) .badReturnType
      return popped.2 : Check Frame).Orderly r := by
    refine .bind (.require fun _ => trivial) fun _ _ => ?_
    refine .bind (SlotType.orderly_accepts _ _) fun _ _ => ?_
    exact .bind (.require fun _ => trivial) fun _ _ => .pure _
  cases kind with
  | number number =>
    refine .bind (f.orderly_popAll _) fun g _ => .bind (.pure _) fun popped _ => rest popped
  | reference => exact .bind (f.orderly_popExpected _) fun popped _ => rest popped

theorem ordinary_returnVoid (m : Body) (f : Frame) : Ordinary (m.returnVoid f) :=
  .ite (fun _ => .error trivial) fun _ => .ite (fun _ => .error trivial) fun _ => .ok _

theorem ordinary_classType (m : Body) (index : UInt16) : Ordinary (m.classType index) :=
  .bind (ConstantPool.ordinary_kindAmong _ _ _) fun _ _ =>
    .bind (ConstantPool.ordinary_className _ _) fun _ _ => .pure _

theorem ordinary_allocate (m : Body) (index : UInt16) (f : Frame) : Ordinary (m.allocate index f) :=
  .bind (m.ordinary_classType index) fun _ _ =>
    .ite (fun _ => f.ordinary_push _) fun _ => .error trivial

theorem orderly_newArray (code : UInt8) (f : Frame) : (newArray code f).Orderly r :=
  .bind (.ofOption fun _ => trivial) fun _ _ => .bind (f.orderly_popAll _) fun g _ =>
    .lift (g.ordinary_push _)

theorem orderly_newReferenceArray (m : Body) (index : UInt16) (f : Frame) :
    (m.newReferenceArray index f).Orderly r := by
  refine .bind (.lift (m.ordinary_classType index)) fun _ _ => ?_
  refine .bind (.lift (ConstantPool.ordinary_className _ _)) fun _ _ => ?_
  refine .bind (f.orderly_popAll _) fun g _ => .bind (.require fun _ => trivial) fun _ _ => ?_
  exact .lift (g.ordinary_push _)

theorem orderly_newMultiArray (m : Body) (index : UInt16) (dimensions : Nat) (f : Frame) :
    (m.newMultiArray index dimensions f).Orderly r := by
  refine .bind (.lift (m.ordinary_classType index)) fun _ _ => ?_
  refine .bind (.require fun _ => trivial) fun _ _ => ?_
  refine .bind (.require fun _ => trivial) fun _ _ => ?_
  exact .bind (f.orderly_popAll _) fun g _ => .lift (g.ordinary_push _)

theorem orderly_arrayLength (f : Frame) : (arrayLength f).Orderly r :=
  .bind (f.orderly_popExpected _) fun popped _ => .bind (.require fun _ => trivial) fun _ _ =>
    .lift (popped.2.ordinary_push _)

theorem orderly_testObject (m : Body) (index : UInt16) (result : SlotType → SlotType) (f : Frame) :
    (m.testObject index result f).Orderly r :=
  .bind (.lift (m.ordinary_classType index)) fun _ _ => .bind (f.orderly_popAll _) fun g _ =>
    .lift (g.ordinary_push _)

/-- Every recorded frame is regular, and whether all ways from a handler end in a throw is always
answered. -/
structure Steady (m : Body) : Prop where
  regular : ∀ g ∈ m.stackMap.frames.toList, g.Regular
  answers : ∀ h ∈ m.code.handlers, ∃ answer,
    m.listing.endsInThrow m.code.bytes h.target.toNat = .ok answer

theorem Steady.orderly_checkTarget (hm : m.Steady) (hf : f.Regular) (codeLength : Nat)
    (target : Int) : (m.stackMap.checkTarget codeLength f target).Orderly r := by
  refine .bind (.ofOption fun _ => trivial) fun g found => ?_
  have hg := hm.regular g (StackMap.frameAt?_some (ofOption_ok.1 found)).1
  refine .ite (fun _ => ?_) fun _ => .reject trivial
  exact .bind (hf.orderly_flowsInto hg) fun _ _ => .require fun _ => trivial

theorem Steady.orderly_checkTargets (hm : m.Steady) (hf : f.Regular) (targets : List Int) :
    (m.checkTargets f targets).Orderly r := by
  induction targets with
  | nil => exact .pure _
  | cons target targets ih => exact .bind (hm.orderly_checkTarget hf _ target) fun _ _ => ih

theorem ordinary_caughtType (h : Handler) (pool : ConstantPool) : Ordinary (h.caughtType pool) := by
  refine .ite (fun _ => .ok _) fun _ => ?_
  have named := pool.ordinary_className h.catchIndex
  cases hn : pool.className h.catchIndex with
  | ok name => exact .ok _
  | error cause => exact .error (named cause hn)

/-- What a handler sees has the same locals. -/
private theorem handlerFrame_regular {h : Handler} {pending : Bool} (hf : f.Regular)
    (seen : m.handlerFrame h f pending = .ok g) : g.Regular := by
  obtain ⟨caught, _, pushed⟩ := except_bind_ok.1 seen
  exact (Frame.push_moves pushed).regular ⟨hf.size_eq, hf.used_le, hf.unused⟩

theorem Steady.orderly_checkHandlers (hm : m.Steady) (hf : f.Regular) (pending : Bool) :
    (m.checkHandlers f pending).Orderly r := by
  unfold checkHandlers
  induction m.handlersAt f.offset with
  | nil => exact .pure _
  | cons h handlers ih =>
    refine .bind (.bind (.lift ?_) fun seen hseen => ?_) fun _ _ => ih
    · exact .bind (ordinary_caughtType h _) fun _ _ => Frame.ordinary_push _ _
    · have hs := handlerFrame_regular hf (lift_ok.1 hseen)
      refine .bind (.ofOption fun _ => trivial) fun recorded found => ?_
      have hr := hm.regular recorded (StackMap.frameAt?_some (ofOption_ok.1 found)).1
      exact .bind (hs.orderly_flowsInto hr) fun _ _ => .require fun _ => trivial

theorem orderly_accessField (m : Body) (access : FieldAccess) (index : UInt16) (f : Frame) :
    (m.accessField access index f).Orderly r := by
  refine .bind (.lift (ConstantPool.ordinary_kindAmong _ _ _)) fun _ _ => ?_
  refine .bind (.lift (ConstantPool.ordinary_memberName _ _)) fun name _ => ?_
  refine .bind (.lift (ConstantPool.ordinary_memberDescriptor _ _)) fun descriptor _ => ?_
  refine .bind (.lift ?_) fun type _ => ?_
  · unfold fieldType
    split
    · exact .ok _
    · exact .error trivial
  refine .bind (.lift (ConstantPool.ordinary_ownerName _ _)) fun owner _ => ?_
  refine .bind (.require fun _ => trivial) fun _ _ => ?_
  cases access with
  | getStatic => exact .lift (f.ordinary_pushAll _)
  | putStatic => exact f.orderly_popAll _
  | getField =>
    exact .bind (f.orderly_popExpected _) fun popped _ => .lift (popped.2.ordinary_pushAll _)
  | putField =>
    refine .bind (f.orderly_popAll _) fun g _ => .bind (.lift g.ordinary_pop) fun popped _ => ?_
    refine .bind (SlotType.orderly_accepts _ _) fun _ _ => ?_
    exact .bind (.require fun _ => trivial) fun _ _ => .pure _

private theorem orderly_checkName (m : Body) (kind : CallKind) (owner : Option String)
    (name : String) (entry : ConstantKind) : (m.checkName kind owner name entry).Orderly r := by
  refine .ite (fun _ => .require fun _ => trivial) fun _ => ?_
  split
  · refine .ite (fun _ => .pure _) fun _ => .bind (SlotType.orderly_accepts _ _) fun _ _ => ?_
    exact .bind (.require fun _ => trivial) fun _ _ => .require fun _ => trivial
  · exact .pure _

/-- Whatever in the frame is not initialized was allocated by an instruction. -/
def Allocates (m : Body) (f : Frame) : Prop :=
  ∀ n, f.Holds (.uninitialized n) → ∃ index, Listing.newIndex? m.code.bytes n = some index

theorem Allocates.moves {popped : List SlotType} (h : m.Allocates f) (moves : f.Moves popped [] g) :
    m.Allocates g :=
  fun n hn => h n ((moves.holds hn).resolve_left nofun)

private theorem Steady.ordinary_checkThrows (hm : m.Steady) {handlers : List Handler}
    (listed : ∀ h ∈ handlers, h ∈ m.code.handlers) : Ordinary (m.checkThrows handlers) := by
  induction handlers with
  | nil => exact .ok _
  | cons h handlers ih =>
    obtain ⟨here, listed⟩ := List.forall_mem_cons.1 listed
    obtain ⟨answer, explored⟩ := hm.answers h here
    rw [checkThrows, explored]
    cases answer with
    | true => exact ih listed
    | false => exact .error trivial

private theorem Steady.orderly_construct (hm : m.Steady) (hf : f.Regular) (known : m.Allocates f)
    (owner : String) : (m.construct owner f).Orderly r := by
  refine .bind (f.orderly_popExpected _) fun popped h => ?_
  obtain ⟨receiver, g⟩ := popped
  have moves := (Frame.popExpected_moves h).2
  have regular := moves.regular hf
  cases receiver with
  | uninitializedThis =>
    refine .bind (.require fun _ => trivial) fun _ _ => .ite (fun _ => ?_) fun _ => .pure _
    refine .bind (.lift (hm.ordinary_checkThrows fun _ => List.mem_of_mem_filter)) fun _ _ => ?_
    exact .bind (hm.orderly_checkHandlers regular _) fun _ _ => .pure _
  | uninitialized n =>
    refine .bind (.ofOption fun missing => ?_) fun index _ => ?_
    · obtain ⟨index, found⟩ := known n (.inr (moves.mem_popped (List.mem_singleton_self _)))
      rw [found] at missing
      cases missing
    · refine .bind (.lift (m.ordinary_classType index)) fun _ _ => ?_
      refine .bind (.require fun _ => trivial) fun _ _ => .ite (fun _ => ?_) fun _ => .pure _
      exact .bind (hm.orderly_checkHandlers regular _) fun _ _ => .pure _
  | _ => exact .reject trivial

private theorem Steady.orderly_popReceiver (hm : m.Steady) (hf : f.Regular) (known : m.Allocates f)
    (kind : CallKind) (owner : Option String) (name : String) :
    (m.popReceiver kind owner name f).Orderly r := by
  unfold popReceiver
  split
  · exact .pure _
  · exact .pure _
  · refine .ite (fun _ => hm.orderly_construct hf known _) fun _ => ?_
    exact .bind (f.orderly_popExpected _) fun _ _ => .pure _

private theorem ordinary_callOwner (m : Body) (kind : CallKind) (index : UInt16) :
    Ordinary (m.callOwner kind index) := by
  cases kind with
  | dynamic =>
    unfold callOwner
    dsimp only
    split
    · exact .error trivial
    · exact .pure _
  | _ => exact .bind (ConstantPool.ordinary_ownerName _ _) fun _ _ => .pure _

private theorem ordinary_callBytes (kind : CallKind) (arguments : Nat) :
    Ordinary (callBytes kind arguments) := by
  cases kind with
  | interface =>
    exact .ite (fun _ => .error trivial) fun _ => .ite (fun _ => .error trivial) fun _ => .ok _
  | dynamic => exact .ite (fun _ => .error trivial) fun _ => .ok _
  | _ => exact .ok _

private theorem ordinary_pushResult (name : String) (result : Option FieldType) (f : Frame) :
    Ordinary (pushResult name result f) := by
  cases result with
  | none => exact .ok _
  | some type => exact .ite (fun _ => .error trivial) fun _ => f.ordinary_pushAll _

theorem Steady.orderly_call (hm : m.Steady) (hf : f.Regular) (known : m.Allocates f)
    (kind : CallKind) (index : UInt16) : (m.call kind index f).Orderly r := by
  refine .bind (.lift (ConstantPool.ordinary_kindAmong _ _ _)) fun entry _ => ?_
  refine .bind (.lift (ConstantPool.ordinary_memberName _ _)) fun name _ => ?_
  refine .bind (.lift (ConstantPool.ordinary_memberDescriptor _ _)) fun descriptor _ => ?_
  refine .bind (.lift ?_) fun type _ => ?_
  · unfold methodType
    split
    · exact .ok _
    · exact .error trivial
  refine .bind (.lift (m.ordinary_callOwner kind index)) fun owner _ => ?_
  refine .bind (.lift (ordinary_callBytes kind _)) fun _ _ => ?_
  refine .bind (m.orderly_checkName kind owner name entry) fun _ _ => ?_
  refine .bind (f.orderly_popAll _) fun g popped => ?_
  obtain ⟨_, _, moves⟩ := Frame.popAll_moves popped
  refine .bind (hm.orderly_popReceiver (moves.regular hf) (known.moves moves) _ _ _) fun _ _ => ?_
  exact .bind (.lift (ordinary_pushResult _ _ _)) fun _ _ => .pure _

theorem Steady.orderly_effect (hm : m.Steady) (hf : f.Regular) (known : m.Allocates f)
    {i : Instruction} (read : i.isEncodable) : (m.effect i f).Orderly r := by
  cases i with
  | nop | jump => exact .pure _
  | const kind =>
    cases kind with
    | number => exact .bind (.lift (f.ordinary_pushAll _)) fun _ _ => .pure _
    | reference => exact .bind (.lift (f.ordinary_push _)) fun _ _ => .pure _
  | loadConstant index =>
    exact .bind (.lift (m.ordinary_loadConstant index _ f)) fun _ _ => .pure _
  | loadWideConstant index =>
    exact .bind (.lift (m.ordinary_loadConstant index _ f)) fun _ _ => .pure _
  | load kind index => exact .bind (orderly_load hf kind _) fun _ _ => .pure _
  | store kind index => exact .bind (orderly_store hf kind _) fun _ _ => .pure _
  | increment index => exact .bind (orderly_increment hf _) fun _ _ => .pure _
  | arrayLoad kind => exact .bind (orderly_arrayLoad kind f) fun _ _ => .pure _
  | arrayStore kind =>
    refine .bind (.bind (f.orderly_popAll _) fun g _ => ?_) fun _ _ => .pure _
    exact .bind (orderly_popArray kind g) fun _ _ => .pure _
  | discard count => exact .bind (f.orderly_popSlots count) fun _ _ => .pure _
  | duplicate count under => exact .bind (orderly_duplicate _ _ f) fun _ _ => .pure _
  | swap => exact .bind (orderly_swap f) fun _ _ => .pure _
  | compute operands result =>
    refine .bind (f.orderly_popAll _) fun g _ => ?_
    exact .bind (.lift (g.ordinary_pushAll _)) fun _ _ => .pure _
  | branch test target => exact .bind (f.orderly_popAll _) fun _ _ => .pure _
  | subroutine opcode widened =>
    refine .ite (fun _ => .reject trivial) fun _ => .reject ?_
    simpa [Instruction.isEncodable, Cause.Possible, or_assoc] using read
  | switch table => exact .bind (orderly_checkSwitch read f) fun _ _ => .pure _
  | returnValue kind => exact .bind (m.orderly_returnValue kind f) fun _ _ => .pure _
  | returnVoid => exact .bind (.lift (m.ordinary_returnVoid f)) fun _ _ => .pure _
  | field access index => exact .bind (m.orderly_accessField access index f) fun _ _ => .pure _
  | call kind index => exact hm.orderly_call hf known kind index
  | new index => exact .bind (.lift (m.ordinary_allocate index f)) fun _ _ => .pure _
  | newArray code => exact .bind (orderly_newArray code f) fun _ _ => .pure _
  | newReferenceArray index =>
    exact .bind (m.orderly_newReferenceArray index f) fun _ _ => .pure _
  | newMultiArray index dimensions =>
    exact .bind (m.orderly_newMultiArray index _ f) fun _ _ => .pure _
  | arrayLength => exact .bind (orderly_arrayLength f) fun _ _ => .pure _
  | throw | monitor => exact .bind (f.orderly_popAll _) fun _ _ => .pure _
  | cast index => exact .bind (m.orderly_testObject index _ f) fun _ _ => .pure _
  | isInstance index => exact .bind (m.orderly_testObject index _ f) fun _ _ => .pure _

theorem Steady.orderly_step (hm : m.Steady) (hf : f.Regular) (known : m.Allocates f)
    {i : Instruction} (read : i.isEncodable) : (m.step i f).Orderly r := by
  have executed : (m.execute i f).Orderly r := by
    refine .bind (hm.orderly_effect hf known read) fun after h => ?_
    refine .bind (hm.orderly_checkTargets ((effect_ok hf h).regular hf) _) fun _ _ => .pure _
  have handled {after : Flow × Frame} (h : (m.execute i f).run r = .ok after) (pending : Bool) :
      (m.checkHandlers after.2 pending).Orderly r :=
    hm.orderly_checkHandlers ((effect_ok hf (execute_ok.1 h).1).regular hf) pending
  refine .ite (fun _ => .bind (hm.orderly_checkHandlers hf _) fun _ _ => ?_) fun _ => ?_
  · refine .bind executed fun after h => .ite (fun _ => ?_) fun _ => .pure _
    exact .bind (handled h _) fun _ _ => .pure _
  · refine .bind executed fun after h => .ite (fun _ => ?_) fun _ => .pure _
    exact .bind (handled h _) fun _ _ => .pure _

end Body
end ClassVerifier
