import ClassVerifier.Proofs.FrameOrder
import ClassVerifier.Proofs.RecordedFrames
import ClassVerifier.Proofs.RepresentedSteps
import ClassVerifier.Proofs.SimulatedSteps

/-! Instructions are monotone. The order of frames is a simulation: where an instruction succeeds on
a frame, it succeeds in the same way on every frame below it, and the frames behind it are in order
again. -/
namespace ClassVerifier
variable {r : Resolver} {m : Body} {f g : Frame}

namespace SlotType.Below
open ClassName (Assignable)
variable {s t : SlotType}

theorem isArrayOf (h : Below r s t) {letter : Char} (primitive : letter ≠ 'L' ∧ letter ≠ '[')
    (array : t.isArrayOf letter) : s.isArrayOf letter := by
  rcases (accepts_ok h.actual).1 h.accepted with rfl | ⟨name, rfl, rfl | ⟨other, rfl, assignable⟩⟩
  · exact array
  · rfl
  · have array : ClassName.componentLetter? name.toList = some letter := of_decide_eq_true array
    rcases assignable.letter array with same | ⟨references, _⟩
    · exact decide_eq_true same
    · simp [ClassName.hasReferenceComponent, array, primitive] at references

theorem isReferenceArray (h : Below r s t) (array : t.isReferenceArray) : s.isReferenceArray := by
  rcases (accepts_ok h.actual).1 h.accepted with rfl | ⟨name, rfl, rfl | ⟨other, rfl, assignable⟩⟩
  · exact array
  · rfl
  · exact assignable.references array

theorem isElementOf (h : Below r s t) {kind : ElementKind} (array : kind.isElementOf t) :
    kind.isElementOf s := by
  cases kind with
  | number kind => cases kind <;> exact h.isArrayOf (by decide) array
  | reference => exact h.isReferenceArray array
  | byte =>
    rcases (Bool.or_eq_true _ _).mp array with array | array
    · exact (Bool.or_eq_true _ _).mpr (.inl (h.isArrayOf (by decide) array))
    · exact (Bool.or_eq_true _ _).mpr (.inr (h.isArrayOf (by decide) array))
  | char | short => exact h.isArrayOf (by decide) array

/-- The elements of arrays in order are in order. -/
theorem elementType (h : Below r s t) (array : t.isReferenceArray) :
    Follows (Below r) (Body.elementType s) (Body.elementType t) := by
  rcases (accepts_ok h.actual).1 h.accepted with rfl | ⟨name, rfl, rfl | ⟨other, rfl, assignable⟩⟩
  · intro element he
    refine ⟨element, he, .refl ?_⟩
    rcases Body.elementType_reference array he with rfl | ⟨_, rfl⟩ <;> rfl
  · intro element he
    refine ⟨.null, rfl, ?_⟩
    rcases Body.elementType_reference array he with rfl | ⟨_, rfl⟩
    · exact .refl rfl
    · exact ⟨rfl, by simp [SlotType.accepts]⟩
  · rw [Body.elementType_eq array]
    split
    · next component ht =>
      obtain ⟨component', hs, lower⟩ := assignable.component array ht
      rw [Body.elementType_eq (assignable.references array), hs]
      refine .ok ⟨rfl, (accepts_ok rfl).2 (.inr ⟨_, rfl, .inr ⟨_, rfl, ?_⟩⟩)⟩
      rwa [String.toList_ofList, String.toList_ofList]
    · exact .error

theorem isArray (h : Below r s t) (array : t = .null ∨ t.isArray) : s = .null ∨ s.isArray := by
  rcases (accepts_ok h.actual).1 h.accepted with rfl | ⟨name, rfl, rfl | ⟨other, rfl, assignable⟩⟩
  · exact array
  · exact .inl rfl
  · exact .inr (assignable.isArray (array.resolve_left nofun))

end SlotType.Below

theorem SlotType.Below.simulation (hr : r.IsClassHierarchy) :
    SlotType.Simulation r (SlotType.Below r) where
  refl := .refl
  accepts := fun below => below.accepts hr
  size_eq := fun below =>
    let ⟨single, _, second⟩ := size_of_accepts below.actual below.accepted
    ⟨single, second⟩
  eq_of_uninitialized := fun below either =>
    either.elim below.eq_of_uninitialized_source below.eq_of_uninitialized
  isElementOf := fun below => below.isElementOf
  elementType := elementType
  isArray := isArray

theorem Frame.Ordered.simulation (hr : r.IsClassHierarchy) :
    Frame.Simulation r (SlotType.Below r) (Frame.Ordered r) where
  toSimulation := SlotType.Below.simulation hr
  offset_eq := fun o => o.offset_eq
  thisPending := fun o => o.thisPending
  push := fun o below => o.push below
  pop? := by
    intro f g t rest o top
    obtain ⟨s, rest', top', below, rest⟩ := o.toBelow.pop? top
    exact ⟨s, rest', top', below, o.of_below rest rfl rfl⟩
  load := by
    intro f g index expected o used
    refine (o.toBelow.load hr index used).imp ?_
    rintro ⟨s, _⟩ ⟨t, _⟩ ⟨below, accepted, rfl, rfl⟩
    exact ⟨⟨below, o⟩, accepted⟩
  loadPair := by
    intro f g index first second o used used'
    exact o.toBelow.loadPair hr index used used'
  store := by
    intro f g s t index o below first
    exact o.store below index first
  replaceAll := fun name o => o.replaceAll name
  inHandler := by
    intro f g pending o
    refine o.of_below (o.toBelow.inHandler ?_) rfl rfl
    rw [Bool.or_eq_true, Bool.or_eq_true]
    exact Or.imp_left o.thisPending
  at_offset := fun offset o => o.of_below (o.toBelow.at_offset offset) rfl rfl

namespace Body

/-- In the recorded frames there are only types that a slot can have. -/
def Usable (m : Body) : Prop := ∀ h ∈ m.stackMap.frames.toList, ∀ t, h.Holds t → t.isActual

/-- Where a frame may flow into a recorded one, every frame below it may. -/
private theorem Usable.relaxedBy_self (hr : r.IsClassHierarchy) (hm : m.Usable)
    (this : ∃ name, m.thisType = .reference name) : m.RelaxedBy r (Frame.Ordered r) m where
  thisType := this
  isConstructor_eq := rfl
  bytes_eq := rfl
  handlers := fun _ listed => listed
  isProtected := fun _ covered => covered
  recorded := by
    intro target recorded found
    refine ⟨recorded, found, fun f g o => ?_⟩
    exact o.toBelow.flows_trans hr (hm recorded (StackMap.frameAt?_some found).1)

/-- What an instruction does to a frame, jump targets included, it does to every frame below it. -/
theorem follows_execute (hr : r.IsClassHierarchy) (hm : m.Usable)
    (this : ∃ name, m.thisType = .reference name) (b : f.Below r g) (hf : Paired f.locals.toList)
    (hg : Paired g.locals.toList) (i : Instruction) :
    (m.execute i f).Follows r (Related (Frame.Ordered r)) (m.execute i g) :=
  (hm.relaxedBy_self hr this).follows_execute (Frame.Ordered.simulation hr) ⟨b, hf, hg⟩ i

end Body
end ClassVerifier
