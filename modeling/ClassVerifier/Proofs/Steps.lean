import ClassVerifier.Proofs.Effects
import ClassVerifier.Walk

/-! What a successful step has checked: the effect of the instruction, every jump target against the
frame behind it, and every handler around it against the frame in front of it. -/
namespace ClassVerifier

/-- What a handler finds: the locals as they are, and the caught object alone on the stack. -/
def Frame.catching (f : Frame) (caught : SlotType) : Frame := { f with stack := .ofSlots [caught] }

/-- A frame whose receiver is not pending flows wherever it does with the receiver pending. -/
private theorem Frame.Flows.of_pending {r : Resolver} {f g : Frame} (pending : Bool)
    (h : { f with thisPending := f.thisPending || pending }.Flows r g) : f.Flows r g := by
  obtain ⟨sizes, used, locals, stack, flag⟩ := flows_iff.1 h
  refine flows_iff.2 ⟨sizes, used, locals, stack, fun hp => flag ?_⟩
  rw [hp]
  rfl

/-- A handler catches objects of a class. -/
theorem Handler.caughtType_ok {h : Handler} {pool : ConstantPool} {caught : SlotType}
    (type : h.caughtType pool = .ok caught) : ∃ name, caught = .reference name := by
  unfold caughtType at type
  split at type
  · cases type
    exact ⟨_, rfl⟩
  · cases hn : pool.className h.catchIndex with
    | error cause =>
      rw [hn] at type
      cases type
    | ok name =>
      rw [hn] at type
      cases type
      exact ⟨name, rfl⟩

namespace Body
variable {r : Resolver} {m : Body} {i : Instruction} {f g : Frame} {flow : Flow}

theorem checkTarget_ok {s : StackMap} {codeLength : Nat} {target : Int} {u : Unit} :
    (s.checkTarget codeLength f target).run r = .ok u ↔
      ∃ recorded, s.frameAt? target = some recorded ∧ (0 ≤ target ∧ target < codeLength) ∧
        f.Flows r recorded := by
  simp only [StackMap.checkTarget, StackMap.frameAt, Check.bind_ok, Check.ofOption_ok]
  refine exists_congr fun recorded => and_congr_right fun _ => ?_
  by_cases inside : 0 ≤ target ∧ target < codeLength
  · simp [inside, Frame.Flows]
  · simp [inside]

private theorem checkTargets_ok {targets : List Int} {u : Unit} :
    (m.checkTargets f targets).run r = .ok u ↔ ∀ target ∈ targets,
      (m.stackMap.checkTarget m.listing.length f target).run r = .ok () := by
  induction targets with
  | nil => simp [checkTargets]
  | cons target targets ih =>
    rw [checkTargets, Check.bind_ok, List.forall_mem_cons, ih]
    constructor
    · rintro ⟨_, h⟩
      exact h
    · intro h
      exact ⟨(), h⟩

theorem execute_ok :
    (m.execute i f).run r = .ok (flow, g) ↔ (m.effect i f).run r = .ok (flow, g) ∧
      ∀ target ∈ i.targets, ∃ recorded, m.stackMap.frameAt? target = some recorded ∧
        (0 ≤ target ∧ target < m.listing.length) ∧ g.Flows r recorded := by
  simp only [execute, Check.bind_ok, checkTargets_ok, checkTarget_ok, Check.pure_ok]
  constructor
  · rintro ⟨⟨flow', g'⟩, he, _, ht, hp⟩
    cases hp
    exact ⟨he, ht⟩
  · rintro ⟨he, ht⟩
    exact ⟨(flow, g), he, (), ht, rfl⟩

theorem checkEach_ok {pending : Bool} {hs : List Handler} {u : Unit} :
    (m.checkEach f pending hs).run r = .ok u ↔
      ∀ h ∈ hs, (m.checkHandler f pending h).run r = .ok () := by
  induction hs with
  | nil => simp [checkEach]
  | cons h hs ih =>
    rw [checkEach, Check.bind_ok, List.forall_mem_cons, ih]
    constructor
    · rintro ⟨_, h⟩
      exact h
    · intro h
      exact ⟨(), h⟩

/-- The recorded frame of a handler that was checked takes what the handler finds, with the receiver
pending if the check assumed so. -/
theorem checkHandler_ok {pending : Bool} {h : Handler} {u : Unit}
    (checked : (m.checkHandler f pending h).run r = .ok u) :
    ∃ caught recorded, h.caughtType m.owner.pool = .ok caught ∧
      m.stackMap.frameAt? h.target.toNat = some recorded ∧
      { f.catching caught with thisPending := f.thisPending || pending }.Flows r recorded := by
  obtain ⟨seen, hs, checked⟩ := Check.bind_ok.1 checked
  obtain ⟨recorded, hrec, checked⟩ := Check.bind_ok.1 checked
  obtain ⟨flows, hflows, required⟩ := Check.bind_ok.1 checked
  obtain ⟨caught, hc, hpush⟩ := except_bind_ok.1 (Check.lift_ok.1 hs)
  cases Check.require_ok.1 required
  refine ⟨caught, recorded, hc, Check.ofOption_ok.1 hrec, ?_⟩
  unfold Frame.push at hpush
  split at hpush
  · cases hpush
    exact hflows
  · cases hpush

/-- Every handler that covers the frame's offset was checked. -/
theorem checkHandler_of_checkHandlers {pending : Bool} {u : Unit}
    (checked : (m.checkHandlers f pending).run r = .ok u) {h : Handler}
    (hh : h ∈ m.code.handlers) (covers : h.covers f.offset) :
    (m.checkHandler f pending h).run r = .ok () :=
  checkEach_ok.1 checked h (List.mem_filter.2 ⟨hh, covers⟩)

/-- A handler that was checked takes the frame as it is, whether or not the check assumed the
receiver to be pending. -/
theorem checkHandlers_ok {pending : Bool} {u : Unit}
    (checked : (m.checkHandlers f pending).run r = .ok u) {h : Handler}
    (hh : h ∈ m.code.handlers) (covers : h.covers f.offset) :
    ∃ caught recorded, h.caughtType m.owner.pool = .ok caught ∧
      m.stackMap.frameAt? h.target.toNat = some recorded ∧
      (f.catching caught).Flows r recorded := by
  obtain ⟨caught, recorded, type, found, flows⟩ :=
    checkHandler_ok (checkHandler_of_checkHandlers checked hh covers)
  exact ⟨caught, recorded, type, found, .of_pending pending flows⟩

/-- Checking the handlers against the frame behind the instruction is as good as checking them
against the one in front: a constructor call has seen to that itself. -/
private theorem handled_of_after {pending : Bool} (e : Effect r m i f flow g) (hs : ¬i.isStore)
    (covered : m.isProtected f.offset) (checked : (m.checkHandlers g pending).run r = .ok ()) :
    ∃ pending, (m.checkHandlers f pending).run r = .ok () := by
  cases e with
  | moves hm => exact ⟨pending, checkHandlers_of_moves hm pending ▸ checked⟩
  | writes is => exact absurd (is ▸ rfl) hs
  | constructs called how =>
    cases how with
    | this near guarded => exact ⟨true, (guarded covered).2⟩
    | created allocated type guarded => exact ⟨false, guarded covered⟩

/-- The step has executed the instruction, and the handlers that may cover it have seen the frame
in front of it. -/
theorem step_ok (hf : f.Regular) (h : (m.step i f).run r = .ok (flow, g)) :
    (m.execute i f).run r = .ok (flow, g) ∧ (m.isProtected f.offset →
      ∃ pending, (m.checkHandlers f pending).run r = .ok ()) := by
  unfold step at h
  by_cases covered : m.isProtected f.offset
  · by_cases hs : i.isStore
    · simp only [covered, hs, Bool.and_true, Bool.not_true, Bool.and_false, Bool.false_eq_true,
        if_true, if_false, Check.bind_ok] at h
      obtain ⟨_, checked, ⟨flow', g'⟩, he, hr⟩ := h
      cases Check.pure_ok.1 hr
      exact ⟨he, fun _ => ⟨false, checked⟩⟩
    · simp only [covered, hs, Bool.and_false, Bool.not_false, Bool.and_true, Bool.false_eq_true,
        if_false, if_true, Check.bind_ok] at h
      obtain ⟨⟨flow', g'⟩, he, _, checked, hr⟩ := h
      cases Check.pure_ok.1 hr
      have e := effect_ok hf (execute_ok.1 he).1
      exact ⟨he, fun _ => handled_of_after e hs covered checked⟩
  · simp only [covered, Bool.false_and, Bool.false_eq_true, if_false, Check.bind_ok] at h
    obtain ⟨⟨flow', g'⟩, he, hr⟩ := h
    cases Check.pure_ok.1 hr
    exact ⟨he, fun hc => absurd hc covered⟩

/-- The handlers around an instruction that is no store have seen the frame behind it as well. -/
theorem step_handled (h : (m.step i f).run r = .ok (flow, g)) (hs : ¬i.isStore)
    (covered : m.isProtected f.offset) :
    (m.checkHandlers g (flow = .initialized)).run r = .ok () := by
  unfold step at h
  simp only [covered, hs, Bool.and_false, Bool.not_false, Bool.and_true, Bool.false_eq_true,
    if_false, if_true, Check.bind_ok] at h
  obtain ⟨⟨flow', g'⟩, _, _, checked, he⟩ := h
  cases Check.pure_ok.1 he
  exact checked

end Body
end ClassVerifier
