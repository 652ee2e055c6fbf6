import ClassVerifier.Proofs.Run
import ClassVerifier.Walk

/-! Only the walk notes instructions, and nothing goes on from a question that is not answered.
Everything that the walk calls is plain in this sense, so the notes of a method are those of its
walk, and a class that is not known ends the verification there and then. -/
namespace ClassVerifier

namespace Check
variable {α β : Type}

/-- A check that stops wherever it asks about a class that is not known, and says which one. -/
def Strict : Check α → Prop
  | done _ | stop _ => True
  | ask name next =>
    (∃ offset, next none = stop (.rejected offset (.unresolvedClass name))) ∧
      ∀ info, (next (some info)).Strict
  | note _ _ next => (next ()).Strict

/-- A check that only looks at types: it notes nothing and needs every answer. -/
structure Plain (x : Check α) : Prop where
  silent : x.Silent
  strict : x.Strict

theorem silent_bind {x : Check α} {f : α → Check β} (hx : x.Silent) (hf : ∀ a, (f a).Silent) :
    (x >>= f).Silent := by
  change (x.bind f).Silent
  induction x with
  | done value => exact hf value
  | stop fault => trivial
  | ask name next ih => exact fun answer => ih answer (hx answer)
  | note frame opcode next => exact hx.elim

theorem silent_located {x : Check α} (offset : Nat) (hx : x.Silent) :
    (x.located offset).Silent := by
  induction x with
  | done value => trivial
  | stop fault => cases fault <;> trivial
  | ask name next ih => exact fun answer => ih answer (hx answer)
  | note frame opcode next => exact hx.elim

theorem strict_bind {x : Check α} {f : α → Check β} (hx : x.Strict) (hf : ∀ a, (f a).Strict) :
    (x >>= f).Strict := by
  change (x.bind f).Strict
  induction x with
  | done value => exact hf value
  | stop fault => trivial
  | ask name next ih =>
    obtain ⟨⟨offset, unknown⟩, known⟩ := hx
    exact ⟨⟨offset, congrArg (Check.bind · f) unknown⟩, fun info => ih _ (known info)⟩
  | note frame opcode next ih => exact ih () hx

theorem strict_located {x : Check α} (offset : Nat) (hx : x.Strict) :
    (x.located offset).Strict := by
  induction x with
  | done value => trivial
  | stop fault => cases fault <;> trivial
  | ask name next ih =>
    obtain ⟨⟨_, unknown⟩, known⟩ := hx
    exact ⟨⟨offset, congrArg (located offset) unknown⟩, fun info => ih _ (known info)⟩
  | note frame opcode next ih => exact ih () hx

@[simp] theorem plain_bind {x : Check α} {f : α → Check β} (hx : x.Plain)
    (hf : ∀ a, (f a).Plain) : (x >>= f).Plain :=
  ⟨silent_bind hx.silent fun a => (hf a).silent, strict_bind hx.strict fun a => (hf a).strict⟩

@[simp] theorem plain_pure (a : α) : (pure a : Check α).Plain := ⟨trivial, trivial⟩

@[simp] theorem plain_reject (c : Cause) : (reject c : Check α).Plain := ⟨trivial, trivial⟩

@[simp] theorem plain_stop (f : Fault) : (stop f : Check α).Plain := ⟨trivial, trivial⟩

@[simp] theorem plain_crash (message : String) : (crash message : Check α).Plain :=
  ⟨trivial, trivial⟩

@[simp] theorem plain_lift (x : Except Cause α) : (liftM x : Check α).Plain := by
  change (ofExcept x).Plain
  cases x with
  | ok a => exact plain_pure a
  | error cause => exact plain_reject cause

@[simp] theorem plain_ofOption (c : Cause) (x : Option α) : (ofOption c x).Plain := by
  cases x with
  | some a => exact plain_pure a
  | none => exact plain_reject c

@[simp] theorem plain_require (condition : Bool) (c : Cause) : (require condition c).Plain := by
  cases condition with
  | true => exact plain_pure ()
  | false => exact plain_reject c

@[simp] theorem plain_ite {p : Prop} [Decidable p] {x y : Check α} (hx : x.Plain)
    (hy : y.Plain) : (if p then x else y).Plain := by
  split
  · exact hx
  · exact hy

end Check

open Check

@[simp] theorem ClassName.plain_describe (name : String) : (describe name).Plain := by
  refine ⟨fun answer => ?_, ⟨none, rfl⟩, fun _ => trivial⟩
  cases answer <;> trivial

@[simp] theorem ClassName.plain_ascend (start target : String) (n : Nat) (name : String) :
    (ascend start target n name).Plain := by
  induction n generalizing name with
  | zero => exact plain_reject _
  | succ n ih =>
    rw [ascend]
    refine plain_ite (plain_pure _) (plain_bind (plain_describe _) fun info => ?_)
    cases info.superclass with
    | none => exact plain_pure _
    | some superclass => exact ih superclass

@[simp] theorem ClassName.plain_accepts (target source : List Char) :
    (ClassName.accepts target source).Plain := by
  fun_induction ClassName.accepts target source with
  | case3 target source _ _ name _ =>
    exact plain_bind (plain_describe name) fun _ => by simp [isSubclassOf]
  | _ => simp_all

@[simp] theorem SlotType.plain_accepts (target source : SlotType) :
    (target.accepts source).Plain := by
  unfold SlotType.accepts
  split
  · exact plain_pure _
  · split <;> simp

namespace Frame

@[simp] theorem plain_popExpected (f : Frame) (expected : SlotType) :
    (f.popExpected expected).Plain := by
  unfold popExpected
  split <;> simp

@[simp] theorem plain_popEach (f : Frame) (types : List SlotType) :
    (f.popEach types).Plain := by
  induction types generalizing f with
  | nil => exact plain_pure _
  | cons t types ih => exact plain_bind (plain_popExpected f t) fun _ => ih _

@[simp] theorem plain_popAll (f : Frame) (types : List SlotType) : (f.popAll types).Plain :=
  plain_popEach f _

@[simp] theorem plain_popPair (f : Frame) : f.popPair.Plain := by
  refine plain_bind (plain_lift _) fun popped => ?_
  exact plain_ite (by simp) (plain_ite (by simp) (plain_reject _))

@[simp] theorem plain_popSlots (f : Frame) (count : Nat) : (f.popSlots count).Plain := by
  unfold popSlots
  split <;> simp

@[simp] theorem plain_localAt (f : Frame) (index : Nat) : (f.localAt index).Plain := by
  unfold localAt
  split <;> simp

@[simp] theorem plain_expectLocal (f : Frame) (index : Nat) (expected : SlotType) :
    (f.expectLocal index expected).Plain := by
  simp [expectLocal]

@[simp] theorem plain_load (f : Frame) (index : Nat) (expected : SlotType) :
    (f.load index expected).Plain := by
  simp [load]

@[simp] theorem plain_loadPair (f : Frame) (index : Nat) (first second : SlotType) :
    (f.loadPair index first second).Plain :=
  plain_ite (plain_reject _) (plain_bind (plain_expectLocal f _ _) fun _ => by simp)

@[simp] theorem plain_store (f : Frame) (index : Nat) (type : SlotType) :
    (f.store index type).Plain := by
  simp [store]

@[simp] theorem plain_firstLocals (f : Frame) (count : Nat) : (f.firstLocals count).Plain := by
  simp [firstLocals]

@[simp] theorem plain_allFlow (pairs : List (SlotType × SlotType)) : (allFlow pairs).Plain := by
  induction pairs with
  | nil => exact plain_pure _
  | cons pair pairs ih => simp [allFlow, ih]

@[simp] theorem plain_flowsInto (f target : Frame) : (f.flowsInto target).Plain := by
  refine plain_ite (plain_pure _) (plain_bind (plain_firstLocals f _) fun sources => ?_)
  refine plain_bind (plain_firstLocals target _) fun targets => ?_
  exact plain_bind (plain_allFlow _) fun _ => plain_ite (plain_pure _) (plain_pure _)

end Frame

@[simp] theorem StackMap.plain_checkTarget (m : StackMap) (codeLength : Nat) (f : Frame)
    (target : Int) : (m.checkTarget codeLength f target).Plain :=
  plain_bind (plain_ofOption _ _) fun _ => plain_ite (by simp) (plain_reject _)

namespace Body

@[simp] theorem plain_checkHandler (m : Body) (f : Frame) (thisPending : Bool) (h : Handler) :
    (m.checkHandler f thisPending h).Plain := by
  refine plain_bind (plain_lift _) fun seen => plain_bind (plain_ofOption _ _) fun _ => ?_
  exact plain_bind (Frame.plain_flowsInto seen _) fun _ => plain_require _ _

@[simp] theorem plain_checkEach (m : Body) (f : Frame) (thisPending : Bool)
    (handlers : List Handler) : (m.checkEach f thisPending handlers).Plain := by
  induction handlers with
  | nil => exact plain_pure _
  | cons h handlers ih => simp [checkEach, ih]

@[simp] theorem plain_checkHandlers (m : Body) (f : Frame) (thisPending : Bool) :
    (m.checkHandlers f thisPending).Plain :=
  plain_checkEach m f thisPending _

@[simp] theorem plain_popArray (kind : ElementKind) (f : Frame) : (popArray kind f).Plain := by
  refine plain_bind (Frame.plain_popExpected f _) fun popped => ?_
  exact plain_bind (Frame.plain_popExpected popped.2 _) fun _ => by simp

@[simp] theorem plain_accessField (m : Body) (access : FieldAccess) (index : UInt16) (f : Frame) :
    (m.accessField access index f).Plain := by
  refine plain_bind (plain_lift _) fun _ => plain_bind (plain_lift _) fun name => ?_
  refine plain_bind (plain_lift _) fun descriptor => plain_bind (plain_lift _) fun _ => ?_
  refine plain_bind (plain_lift _) fun owner => plain_bind (plain_require _ _) fun _ => ?_
  cases access with
  | putField =>
    refine plain_bind (Frame.plain_popAll f _) fun f => plain_bind (plain_lift _) fun _ => ?_
    exact plain_bind (SlotType.plain_accepts _ _) fun _ => by simp
  | _ => simp

@[simp] theorem plain_checkName (m : Body) (kind : CallKind) (owner : Option String)
    (name : String) (entry : ConstantKind) : (m.checkName kind owner name entry).Plain := by
  refine plain_ite (plain_require _ _) ?_
  split
  · refine plain_ite (plain_pure _) (plain_bind (SlotType.plain_accepts _ _) fun _ => ?_)
    exact plain_bind (plain_require _ _) fun _ => plain_require _ _
  · exact plain_pure _

@[simp] theorem plain_construct (m : Body) (owner : String) (f : Frame) :
    (m.construct owner f).Plain := by
  refine plain_bind (Frame.plain_popExpected f _) fun popped => ?_
  obtain ⟨receiver, f⟩ := popped
  cases receiver with
  | uninitializedThis =>
    refine plain_bind (plain_require _ _) fun _ => plain_ite ?_ (plain_pure _)
    exact plain_bind (plain_lift _) fun _ => by simp
  | uninitialized offset =>
    refine plain_bind (plain_ofOption _ _) fun _ => plain_bind (plain_lift _) fun created => ?_
    exact plain_bind (plain_require _ _) fun _ => plain_ite (by simp) (plain_pure _)
  | _ => exact plain_reject _

@[simp] theorem plain_popReceiver (m : Body) (kind : CallKind) (owner : Option String)
    (name : String) (f : Frame) : (m.popReceiver kind owner name f).Plain := by
  unfold popReceiver
  split
  · exact plain_pure _
  · exact plain_pure _
  · exact plain_ite (plain_construct m _ f) (by simp)

@[simp] theorem plain_call (m : Body) (kind : CallKind) (index : UInt16) (f : Frame) :
    (m.call kind index f).Plain := by
  refine plain_bind (plain_lift _) fun _ => plain_bind (plain_lift _) fun name => ?_
  refine plain_bind (plain_lift _) fun _ => plain_bind (plain_lift _) fun type => ?_
  refine plain_bind (plain_lift _) fun owner => plain_bind (plain_lift _) fun _ => ?_
  refine plain_bind (plain_checkName m kind owner name _) fun _ => ?_
  refine plain_bind (Frame.plain_popAll f _) fun f => ?_
  exact plain_bind (plain_popReceiver m kind owner name f) fun _ => by simp

@[simp] theorem plain_load (kind : ValueKind) (index : Nat) (f : Frame) :
    (load kind index f).Plain := by
  cases kind with
  | number number =>
    refine plain_bind ?_ fun _ => plain_lift _
    unfold loadNumber
    split <;> simp
  | reference => simp [load]

@[simp] theorem plain_increment (index : Nat) (f : Frame) : (increment index f).Plain :=
  plain_bind (Frame.plain_load f _ _) fun _ => by simp

@[simp] theorem plain_arrayLoad (kind : ElementKind) (f : Frame) : (arrayLoad kind f).Plain := by
  refine plain_bind (plain_popArray kind f) fun _ => ?_
  cases kind <;> simp

@[simp] theorem plain_arrayStore (kind : ElementKind) (f : Frame) :
    (arrayStore kind f).Plain :=
  plain_bind (Frame.plain_popAll f _) fun _ => by simp

@[simp] theorem plain_duplicate (count under : Nat) (f : Frame) :
    (duplicate count under f).Plain :=
  plain_bind (Frame.plain_popSlots f _) fun popped =>
    plain_bind (Frame.plain_popSlots popped.2 _) fun _ => plain_lift _

@[simp] theorem plain_swap (f : Frame) : (swap f).Plain :=
  plain_bind (Frame.plain_popSlots f _) fun popped =>
    plain_bind (Frame.plain_popSlots popped.2 _) fun _ => plain_lift _

@[simp] theorem plain_returnValue (m : Body) (kind : ValueKind) (f : Frame) :
    (m.returnValue kind f).Plain := by
  cases kind with
  | number number =>
    refine plain_bind (Frame.plain_popAll f _) fun _ => ?_
    refine plain_bind (plain_pure _) fun popped => ?_
    exact plain_bind (plain_require _ _) fun _ => by simp
  | reference =>
    refine plain_bind (Frame.plain_popExpected f _) fun popped => ?_
    exact plain_bind (plain_require _ _) fun _ => by simp

@[simp] theorem plain_checkSwitch (m : Body) (table : Switch) (f : Frame) :
    (m.checkSwitch table f).Plain :=
  plain_bind (plain_require _ _) fun _ => plain_bind (Frame.plain_popAll f _) fun _ => by simp

@[simp] theorem plain_newReferenceArray (m : Body) (index : UInt16) (f : Frame) :
    (m.newReferenceArray index f).Plain := by
  refine plain_bind (plain_lift _) fun _ => plain_bind (plain_lift _) fun name => ?_
  exact plain_bind (Frame.plain_popAll f _) fun _ => by simp

@[simp] theorem plain_newMultiArray (m : Body) (index : UInt16) (dimensions : Nat) (f : Frame) :
    (m.newMultiArray index dimensions f).Plain := by
  refine plain_bind (plain_lift _) fun _ => plain_bind (plain_require _ _) fun _ => ?_
  exact plain_bind (plain_require _ _) fun _ => by simp

@[simp] theorem plain_arrayLength (f : Frame) : (arrayLength f).Plain :=
  plain_bind (Frame.plain_popExpected f _) fun _ => by simp

@[simp] theorem plain_effect (m : Body) (i : Instruction) (f : Frame) : (m.effect i f).Plain := by
  cases i with
  | const kind => cases kind <;> simp [effect]
  | store kind index => cases kind <;> simp [effect, store]
  | compute operands result =>
    exact plain_bind (Frame.plain_popAll f _) fun _ => by simp
  | newArray code =>
    refine plain_bind (plain_bind (plain_ofOption _ _) fun _ => ?_) (by simp)
    exact plain_bind (Frame.plain_popAll f _) (by simp)
  | cast index | isInstance index =>
    refine plain_bind (plain_bind (plain_lift _) fun _ => ?_) (by simp)
    exact plain_bind (Frame.plain_popAll f _) (by simp)
  | _ => simp [effect]

@[simp] theorem plain_checkTargets (m : Body) (f : Frame) (targets : List Int) :
    (m.checkTargets f targets).Plain := by
  induction targets with
  | nil => exact plain_pure _
  | cons target targets ih => simp [checkTargets, ih]

@[simp] theorem plain_execute (m : Body) (i : Instruction) (f : Frame) :
    (m.execute i f).Plain :=
  plain_bind (plain_effect m i f) fun _ => by simp

theorem plain_step (m : Body) (i : Instruction) (f : Frame) : (m.step i f).Plain := by
  refine plain_ite (plain_bind (plain_checkHandlers m f _) fun _ => ?_) ?_
  · exact plain_bind (plain_execute m i f) fun _ => by simp
  · exact plain_bind (plain_execute m i f) fun _ => by simp

theorem plain_enter (f : Frame) (pending : List Frame) (cutOff : Bool) :
    (enter f pending cutOff).Plain := by
  cases pending with
  | nil => simp [enter]
  | cons recorded pending =>
    refine plain_bind (plain_require _ _) fun _ => plain_ite (plain_ite ?_ ?_) (by simp)
    · exact plain_bind (Frame.plain_flowsInto f recorded) fun _ => by simp
    · exact plain_pure _

/-- The walk notes instructions, but what it asks has to be answered as well. -/
theorem strict_pass (m : Body) (i : Located) (p : Position) : (m.pass i p).Strict := by
  refine strict_bind (strict_located _ (plain_enter _ _ _).strict) fun entered => ?_
  exact strict_bind (strict_located _ (plain_step m _ entered.1).strict) fun _ => trivial

theorem strict_walk (m : Body) (b : Nat) (p : Position) : (m.walk b p).Strict := by
  fun_induction walk m b p with
  | case1 b p inside illegal => exact strict_located _ (plain_reject _).strict
  | case2 b p inside i decoded ih => exact strict_bind (m.strict_pass i p) ih
  | case3 b p past => exact strict_located _ (plain_require _ _).strict

end Body

namespace Code

theorem plain_checkHandler (code : Code) (listing : Listing) (pool : ConstantPool) (h : Handler) :
    (code.checkHandler listing pool h).Plain := by
  refine plain_bind (plain_require _ _) fun _ => plain_bind (plain_require _ _) fun _ => ?_
  refine plain_bind (plain_require _ _) fun _ => plain_ite ?_ (plain_pure _)
  exact plain_bind (plain_lift _) fun _ => by simp

theorem plain_checkHandlers (code : Code) (listing : Listing) (pool : ConstantPool)
    (handlers : List Handler) : (code.checkHandlers listing pool handlers).Plain := by
  induction handlers with
  | nil => exact plain_pure _
  | cons h handlers ih => exact plain_bind (code.plain_checkHandler listing pool h) fun _ => ih

theorem plain_prepare (code : Code) (owner : ClassModel) (method : Method) :
    (code.prepare owner method).Plain := by
  refine plain_bind (plain_require _ _) fun _ => plain_bind (plain_lift _) fun initial => ?_
  refine plain_bind (plain_lift _) fun listing => ?_
  refine plain_bind (code.plain_checkHandlers listing _ _) fun _ => ?_
  refine plain_bind (plain_lift _) fun _ => ?_
  split
  split <;> simp

end Code

theorem Method.strict_verify (owner : ClassModel) (method : Method) :
    (method.verify owner).Strict := by
  unfold Method.verify
  split
  · trivial
  · next code _ =>
    exact strict_bind (code.plain_prepare owner method).strict fun prepared =>
      prepared.1.strict_walk _ _

end ClassVerifier
