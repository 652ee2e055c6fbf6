import ClassVerifier.Proofs.FrameFlow
import ClassVerifier.Proofs.PlainChecks
import ClassVerifier.Proofs.StackMoves

/-! Why a check can stop. Some causes are only there in case the checks before overlook something,
and a check breaks down only together with the resolver. Here this is shown for what needs no more
than a regular frame: lookups in the constant pool, comparisons of types, and frame operations. -/
namespace ClassVerifier

/-- A cause that instructions and tables can give. The others are ruled out by earlier checks: a
recorded frame that was passed over, a table of more keys than the code has room for, an object that
nothing allocates, a constant that cannot be loaded, bytes that are no instruction. -/
def Cause.Possible : Cause → Prop
  | .badStackMapOffset _ | .tooManySwitchKeys | .expectingNewInstruction | .invalidLdcIndex
  | .illegalInstruction _ | .internal _ => False
  | .badInstruction opcode => opcode = 0xa8 ∨ opcode = 0xa9 ∨ opcode = 0xc9
  | _ => True

/-- A cause that can be given, or a breakdown of the resolver. -/
def Fault.Possible (r : Resolver) : Fault → Prop
  | .rejected _ cause => cause.Possible
  | .crashed message => ∃ name, r name = .broken message

/-- If it fails, then for a cause that can be given. -/
def Ordinary {α : Type} (x : Except Cause α) : Prop := ∀ cause, x = .error cause → cause.Possible

namespace Ordinary
variable {α β : Type}

@[simp] theorem ok (a : α) : Ordinary (.ok a) := nofun

theorem error {cause : Cause} (h : cause.Possible) : Ordinary (.error cause : Except Cause α) := by
  rintro _ ⟨rfl⟩
  exact h

@[simp] theorem pure (a : α) : Ordinary (Pure.pure a : Except Cause α) := nofun

theorem bind {x : Except Cause α} {f : α → Except Cause β} (hx : Ordinary x)
    (hf : ∀ a, x = .ok a → Ordinary (f a)) : Ordinary (x >>= f) := by
  cases x with
  | ok a => exact hf a rfl
  | error cause => exact .error (hx cause rfl)

theorem ite {p : Prop} [Decidable p] {x y : Except Cause α} (hx : p → Ordinary x)
    (hy : ¬p → Ordinary y) : Ordinary (if p then x else y) := by
  split
  · exact hx ‹_›
  · exact hy ‹_›

end Ordinary

namespace Check
variable {α β : Type} {r : Resolver}

/-- Whatever stops the check is a fault that can be expected. -/
def Orderly (r : Resolver) (x : Check α) : Prop :=
  ∀ fault, x.run r = .error fault → fault.Possible r

namespace Orderly

theorem bind {x : Check α} {f : α → Check β} (hx : x.Orderly r)
    (hf : ∀ a, x.run r = .ok a → (f a).Orderly r) : (x >>= f).Orderly r := by
  intro fault h
  rcases bind_error.1 h with h | ⟨a, ha, h⟩
  · exact hx fault h
  · exact hf a ha fault h

@[simp] theorem pure (a : α) : (Pure.pure a : Check α).Orderly r := nofun

theorem reject {cause : Cause} (h : cause.Possible) : (reject cause : Check α).Orderly r := by
  rintro _ ⟨rfl⟩
  exact h

theorem lift {x : Except Cause α} (h : Ordinary x) : (liftM x : Check α).Orderly r := by
  change (ofExcept x).Orderly r
  cases x with
  | ok a => exact pure a
  | error cause => exact reject (h cause rfl)

theorem ofOption {cause : Cause} {x : Option α} (h : x = none → cause.Possible) :
    (ofOption cause x).Orderly r := by
  cases x with
  | some a => exact pure a
  | none => exact reject (h rfl)

theorem require {condition : Bool} {cause : Cause} (h : condition = false → cause.Possible) :
    (require condition cause).Orderly r := by
  cases condition with
  | true => exact pure ()
  | false => exact reject (h rfl)

theorem ite {p : Prop} [Decidable p] {x y : Check α} (hx : p → x.Orderly r)
    (hy : ¬p → y.Orderly r) : (if p then x else y).Orderly r := by
  split
  · exact hx ‹_›
  · exact hy ‹_›

/-- Where a cause was found has nothing to do with what it is. -/
theorem located {x : Check α} (offset : Nat) (h : x.Orderly r) : (x.located offset).Orderly r := by
  induction x with
  | done value => exact pure value
  | stop fault =>
    have possible := h fault rfl
    cases fault <;> rintro _ ⟨rfl⟩ <;> exact possible
  | ask name next ih =>
    intro fault hf
    simp only [Check.located, run] at hf
    cases hr : r name with
    | known info =>
      rw [hr] at hf
      refine ih _ (fun fault' h' => h fault' ?_) fault hf
      rw [run, hr]
      exact h'
    | unknown =>
      rw [hr] at hf
      refine ih _ (fun fault' h' => h fault' ?_) fault hf
      rw [run, hr]
      exact h'
    | broken message =>
      rw [hr] at hf
      cases hf
      exact ⟨name, hr⟩
  | note frame opcode next ih => exact ih () h

end Orderly
end Check

open Check

namespace ConstantPool
variable (pool : ConstantPool) (index : UInt16)

theorem ordinary_entry : Ordinary (pool.entry index) := by
  unfold entry
  split
  · exact .ok _
  · exact .error trivial

theorem ordinary_kindAmong (kinds : List ConstantKind) : Ordinary (pool.kindAmong index kinds) :=
  .bind (pool.ordinary_entry index) fun _ _ => .ite (fun _ => .pure _) fun _ => .error trivial

theorem ordinary_utf8 : Ordinary (pool.utf8 index) := by
  refine .bind (pool.ordinary_entry index) fun c _ => ?_
  cases c with
  | utf8 => exact .pure _
  | _ => exact .error trivial

theorem ordinary_className : Ordinary (pool.className index) := by
  refine .bind (pool.ordinary_entry index) fun c _ => ?_
  cases c with
  | classRef name => exact pool.ordinary_utf8 name
  | _ => exact .error trivial

theorem ordinary_ownerName : Ordinary (pool.ownerName index) := by
  refine .bind (pool.ordinary_entry index) fun c _ => ?_
  cases c with
  | fieldRef owner | methodRef owner | interfaceMethodRef owner =>
    exact pool.ordinary_className owner
  | _ => exact .error trivial

theorem ordinary_memberIndex : Ordinary (pool.memberIndex index) := by
  refine .bind (pool.ordinary_entry index) fun c _ => ?_
  cases c with
  | fieldRef | methodRef | interfaceMethodRef | dynamic | invokeDynamic => exact .pure _
  | _ => exact .error trivial

theorem ordinary_memberName : Ordinary (pool.memberName index) := by
  refine .bind (pool.ordinary_memberIndex index) fun member _ => ?_
  refine .bind (pool.ordinary_entry member) fun c _ => ?_
  cases c with
  | nameAndType name => exact pool.ordinary_utf8 name
  | _ => exact .error trivial

theorem ordinary_memberDescriptor : Ordinary (pool.memberDescriptor index) := by
  refine .bind (pool.ordinary_memberIndex index) fun member _ => ?_
  refine .bind (pool.ordinary_entry member) fun c _ => ?_
  cases c with
  | nameAndType _ descriptor => exact pool.ordinary_utf8 descriptor
  | _ => exact .error trivial

end ConstantPool

variable {r : Resolver}

theorem ClassName.orderly_describe (name : String) : (describe name).Orderly r := by
  intro fault h
  unfold describe run at h
  split at h
  · cases h
  · cases h
    trivial
  · next message hr =>
    cases h
    exact ⟨name, hr⟩

theorem ClassName.orderly_ascend (start target : String) (n : Nat) (name : String) :
    (ascend start target n name).Orderly r := by
  induction n generalizing name with
  | zero => exact .reject trivial
  | succ n ih =>
    refine .ite (fun _ => .pure _) fun _ => .bind (orderly_describe name) fun info _ => ?_
    cases info.superclass with
    | none => exact .pure _
    | some superclass => exact ih superclass

theorem ClassName.orderly_accepts (target source : List Char) :
    (ClassName.accepts target source).Orderly r := by
  fun_induction ClassName.accepts target source with
  | case3 target source _ _ name _ =>
    refine .bind (orderly_describe name) fun info _ => .ite (fun _ => .pure _) fun _ => ?_
    exact .ite (fun _ => orderly_ascend _ _ _ _) fun _ => .pure _
  | case4 target source _ _ _ _ t s _ _ ih => exact ih
  | _ => exact .pure _

theorem SlotType.orderly_accepts (target source : SlotType) :
    (target.accepts source).Orderly r := by
  unfold SlotType.accepts
  refine .ite (fun _ => .pure _) fun _ => ?_
  split
  case h_5 name other _ => exact ClassName.orderly_accepts _ _
  all_goals exact .pure _

namespace Frame
variable {f g : Frame}

theorem ordinary_push (f : Frame) (t : SlotType) : Ordinary (f.push t) :=
  .ite (fun _ => .ok _) fun _ => .error trivial

theorem ordinary_pushAll (f : Frame) (types : List SlotType) : Ordinary (f.pushAll types) := by
  induction types generalizing f with
  | nil => exact .ok f
  | cons t types ih => exact .bind (f.ordinary_push t) fun g _ => ih g

theorem ordinary_pop (f : Frame) : Ordinary f.pop := by
  unfold pop
  split
  · exact .error trivial
  · exact .ok _

theorem orderly_popExpected (f : Frame) (expected : SlotType) :
    (f.popExpected expected).Orderly r := by
  unfold popExpected
  split
  · exact .reject trivial
  · refine .bind (SlotType.orderly_accepts _ _) fun _ _ => ?_
    exact .ite (fun _ => .pure _) fun _ => .reject trivial

theorem orderly_popEach (f : Frame) (types : List SlotType) : (f.popEach types).Orderly r := by
  induction types generalizing f with
  | nil => exact .pure f
  | cons t types ih => exact .bind (f.orderly_popExpected t) fun popped _ => ih popped.2

theorem orderly_popAll (f : Frame) (types : List SlotType) : (f.popAll types).Orderly r :=
  f.orderly_popEach _

theorem orderly_popPair (f : Frame) : f.popPair.Orderly r := by
  refine .bind (.lift f.ordinary_pop) fun popped _ => ?_
  refine .ite (fun _ => ?_) fun _ => .ite (fun _ => ?_) fun _ => .reject trivial
  · exact .bind (orderly_popExpected _ _) fun _ _ => .pure _
  · exact .bind (orderly_popExpected _ _) fun _ _ => .pure _

theorem orderly_popSlots (f : Frame) (count : Nat) : (f.popSlots count).Orderly r := by
  unfold popSlots
  split
  · exact .pure _
  · exact .bind (f.orderly_popExpected _) fun _ _ => .pure _
  · exact f.orderly_popPair

theorem orderly_expectLocal {index : Nat} (room : index < f.locals.size) (expected : SlotType) :
    (f.expectLocal index expected).Orderly r := by
  have there : (f.localAt index).Orderly r := by
    rw [localAt, Array.getElem?_eq_getElem room]
    exact .pure _
  refine .bind there fun actual _ => .bind (SlotType.orderly_accepts _ _) fun _ _ => ?_
  exact .ite (fun _ => .pure _) fun _ => .reject trivial

/-- The index of a read is below the number of locals. -/
theorem Regular.orderly_load (hf : f.Regular) (index : Nat) (expected : SlotType) :
    (f.load index expected).Orderly r := by
  refine .ite (fun _ => .reject trivial) fun inside => ?_
  have room : index < f.locals.size := by
    rw [hf.size_eq]
    exact Nat.lt_of_not_le inside
  exact .bind (orderly_expectLocal room expected) fun _ _ => .pure _

theorem Regular.orderly_loadPair (hf : f.Regular) (index : Nat) (first second : SlotType) :
    (f.loadPair index first second).Orderly r := by
  refine .ite (fun _ => .reject trivial) fun inside => ?_
  have := hf.used_le
  have := hf.size_eq
  refine .bind (orderly_expectLocal (by omega) first) fun _ _ => ?_
  exact .bind (orderly_expectLocal (by omega) second) fun _ _ => .pure _

theorem Regular.orderly_store (hf : f.Regular) (index : Nat) (type : SlotType) :
    (f.store index type).Orderly r := by
  refine .ite (fun _ => .reject trivial) fun inside => .ite (fun short => ?_) fun _ => .pure _
  rw [hf.size_eq] at short
  exact absurd short inside

theorem orderly_allFlow (pairs : List (SlotType × SlotType)) : (allFlow pairs).Orderly r := by
  induction pairs with
  | nil => exact .pure _
  | cons pair pairs ih =>
    refine .ite (fun _ => ih) fun _ => .bind (SlotType.orderly_accepts _ _) fun _ _ => ?_
    exact .ite (fun _ => ih) fun _ => .pure _

private theorem orderly_firstLocals {count : Nat} (room : count ≤ f.locals.size) :
    (f.firstLocals count).Orderly r := by
  rw [firstLocals, if_pos room]
  exact .pure _

/-- The target uses no more locals than either frame has. -/
theorem Regular.orderly_flowsInto (hf : f.Regular) (hg : g.Regular) :
    (f.flowsInto g).Orderly r := by
  refine .ite (fun _ => .pure _) fun sizes => ?_
  rw [not_or, Decidable.not_not, ← hf.size_eq, ← hg.size_eq] at sizes
  have room : g.used ≤ g.locals.size := hg.size_eq ▸ hg.used_le
  refine .bind (orderly_firstLocals (sizes.1 ▸ room)) fun _ _ => ?_
  refine .bind (orderly_firstLocals room) fun _ _ => .bind (orderly_allFlow _) fun _ _ => ?_
  exact .ite (fun _ => .pure _) fun _ => .pure _

end Frame
end ClassVerifier
