import ClassVerifier.Proofs.Explorations
import ClassVerifier.Proofs.InstructionHeaders
import ClassVerifier.Proofs.Positions

/-! Why a method can fail. Its tables and its walk stop only for faults that can be expected, apart
from bytes that are no instruction, which are found before the walk. -/
namespace ClassVerifier
open Check
variable {r : Resolver} {c : ClassModel} {method : Method} {code : Code} {m : Body}
  {initial : Frame} {q : Position} {b : Nat} {fault : Fault}

/-- No recorded frame lies behind, so none can have been passed over. -/
theorem Body.orderly_enter {f : Frame} {pending : List Frame} (cutOff : Bool) (hf : f.Regular)
    (regular : ∀ g ∈ pending, g.Regular) (ahead : ∀ g ∈ pending, f.offset ≤ g.offset) :
    (enter f pending cutOff).Orderly r := by
  cases pending with
  | nil => exact .bind (.require fun _ => trivial) fun _ _ => .pure _
  | cons recorded pending =>
    refine .bind (.require fun _ => trivial) fun _ _ => .ite (fun _ => ?_) fun elsewhere => ?_
    · refine .ite (fun _ => ?_) fun _ => .pure _
      refine .bind (hf.orderly_flowsInto (regular recorded List.mem_cons_self)) fun _ _ => ?_
      exact .bind (.require fun _ => trivial) fun _ _ => .pure _
    · have later : f.offset < recorded.offset :=
        Nat.lt_of_le_of_ne (ahead recorded List.mem_cons_self) (Ne.symm elsewhere)
      refine .bind (.require fun passed => ?_) fun _ _ => .pure _
      exact absurd later (of_decide_eq_false passed)

namespace Code.Prepared

/-- Handlers lead to instructions, so exploring them never comes upon bytes that are none. -/
theorem steady (p : code.Prepared r c method m initial) : m.Steady where
  regular g hg := (p.represents_recorded g hg).regular
  answers h hh := by
    have checked := Code.checkHandlers_ok.1 p.handlers_ok h (p.code_eq ▸ hh)
    obtain ⟨_, _, checked⟩ := bind_ok.1 checked
    obtain ⟨_, _, checked⟩ := bind_ok.1 checked
    obtain ⟨_, start, _⟩ := bind_ok.1 checked
    exact Listing.endsInThrow_ok p.ofCode_eq (require_ok.1 start)

/-- What a frame of the method holds uninitialized was allocated by the bytes at its offset. -/
theorem allocates (p : code.Prepared r c method m initial) {f : Frame}
    (h : m.surroundings.Represents f) : m.Allocates f := by
  intro n hn
  obtain ⟨index, allocated⟩ := h.allocated n hn
  obtain ⟨i, found, new⟩ := Listing.allocation?_eq_some.1 allocated
  exact ⟨index, Instruction.newIndex?_of_decode? (Listing.decode?_of_at? p.ofCode_eq found) new⟩

theorem orderly_pass (p : code.Prepared r c method m initial) {i : Located}
    (h : m.InStep i.offset q) (decoded : Instruction.decode? m.code.bytes i.offset = some i) :
    (m.pass i q).Orderly r := by
  have carried : m.surroundings.Represents { q.frame with offset := i.offset } :=
    h.represented.agrees (.at_offset _ _) rfl
  have ahead : ∀ g ∈ q.pending, i.offset ≤ g.offset := by
    intro g hg
    rw [h.pending_eq] at hg
    exact of_decide_eq_true (List.mem_filter.1 hg).2
  have enters := Body.orderly_enter (r := r) q.cutOff carried.regular
    (fun g hg => ((p.sound_of_inStep h).admitted g hg).regular) ahead
  refine .bind (.located _ enters) fun entered he => ?_
  have represented := p.represents_entered h (located_ok.1 he)
  have read := Instruction.decode?_encodable decoded
  have steps := p.steady.orderly_step (r := r) represented.regular (p.allocates represented) read
  exact .bind (.located _ steps) fun _ _ => .pure _

/-- The walk comes upon no bytes that are no instruction: it is in step with the listing. -/
theorem orderly_walk (p : code.Prepared r c method m initial) (h : m.InStep b q) :
    (m.walk b q).Orderly r := by
  fun_induction Body.walk m b q with
  | case1 b q inside illegal =>
    obtain ⟨i, read, _⟩ := (p.read_or_end h).resolve_left (Nat.ne_of_lt inside)
    cases illegal.symm.trans read
  | case2 b q inside i decoded ih =>
    obtain rfl := Instruction.decode?_offset decoded
    refine .bind (p.orderly_pass h decoded) fun q' passed => ih q' ?_
    obtain ⟨f, pending, flow, g, entered, stepped, rfl⟩ := Body.pass_ok.1 passed
    exact p.inStep_next h inside decoded entered stepped
  | case3 b q past => exact .located _ (.require fun _ => trivial)

end Code.Prepared

private theorem Frame.ordinary_entry (m : Method) (thisType : SlotType) (maxLocals maxStack : Nat) :
    Ordinary (entry m thisType maxLocals maxStack) := by
  unfold entry
  split
  · exact .error trivial
  · exact .ite (fun _ => .error trivial) fun _ => .ok _

private theorem Code.orderly_checkHandlers (code : Code) (listing : Listing) (pool : ConstantPool)
    (handlers : List Handler) : (code.checkHandlers listing pool handlers).Orderly r := by
  induction handlers with
  | nil => exact .pure _
  | cons h handlers ih =>
    refine .bind ?_ fun _ _ => ih
    refine .bind (.require fun _ => trivial) fun _ _ => ?_
    refine .bind (.require fun _ => trivial) fun _ _ => ?_
    refine .bind (.require fun _ => trivial) fun _ _ => .ite (fun _ => ?_) fun _ => .pure _
    refine .bind (.lift (Body.ordinary_caughtType h pool)) fun caught _ => ?_
    exact .bind (SlotType.orderly_accepts _ _) fun _ _ => .require fun _ => trivial

private theorem Code.ordinary_checkVariables (code : Code) (listing : Listing)
    (locals : List LocalVariable) : Ordinary (code.checkVariables listing locals) := by
  induction locals with
  | nil => exact .ok _
  | cons v locals ih =>
    refine .bind (.ite (fun _ => .error trivial) fun _ => ?_) fun _ _ => ih
    exact .ite (fun _ => .ok _) fun _ => .error trivial

/-- Bytes that are no instruction are reported without the offset of an instruction. -/
theorem Code.prepare_error (h : (code.prepare c method).run r = .error fault) :
    fault.Possible r ∨ ∃ n, fault = .rejected none (.illegalInstruction n) := by
  rcases bind_error.1 h with h | ⟨_, _, h⟩
  · have possible : (Cause.invalidCodeLength code.bytes.size).Possible := trivial
    exact .inl (Orderly.require (fun _ => possible) fault h)
  rcases bind_error.1 h with h | ⟨⟨initial, result⟩, entry, h⟩
  · exact .inl (Orderly.lift (Frame.ordinary_entry _ _ _ _) fault h)
  rcases bind_error.1 h with h | ⟨listing, listed, h⟩
  · right
    cases hl : code.listing with
    | ok listing =>
      rw [hl] at h
      cases h
    | error cause =>
      rw [hl] at h
      cases h
      obtain ⟨n, rfl, _⟩ := Code.listing_error.1 hl
      exact ⟨n, rfl⟩
  left
  rcases bind_error.1 h with h | ⟨_, _, h⟩
  · exact code.orderly_checkHandlers _ _ _ fault h
  rcases bind_error.1 h with h | ⟨_, _, h⟩
  · exact Orderly.lift (code.ordinary_checkVariables _ _) fault h
  have entry := lift_ok.1 entry
  let s : StackMap.Surroundings :=
    ⟨code.maxLocals.toNat, code.maxStack.toNat, listing, c.pool⟩
  have admitted : s.Admits initial := StackMap.Surroundings.admits_entry entry
  have represented : s.Represents initial := StackMap.Surroundings.represents_entry entry
  dsimp only at h
  split at h
  · cases h
  · next other payload =>
    obtain ⟨d, rfl⟩ := StackMap.ofPayload_faithful admitted represented payload
    cases h
    trivial

/-- Whatever a method fails for can be expected, or its bytes are no instructions. -/
theorem Method.verify_error (h : (method.verify c).run r = .error fault) :
    fault.Possible r ∨ ∃ n, fault = .rejected none (.illegalInstruction n) := by
  unfold Method.verify at h
  split at h
  · cases h
  · rcases bind_error.1 h with h | ⟨⟨m, initial⟩, prepared, h⟩
    · exact Code.prepare_error h
    · have p := Code.prepare_ok prepared
      exact .inl (p.orderly_walk p.inStep_start fault h)

end ClassVerifier
