import ClassVerifier.Proofs.FollowingChecks
import ClassVerifier.Proofs.WholeValues

/-! Frames that simulate others. A relation of frames is a simulation if whatever is taken off the
second frame, put on it or read from it can be taken off the first one, put on it or read from it,
and the relation holds again. These are the demands; what follows from them is proved here for the
operations that are made of others. -/
namespace ClassVerifier
variable {r : Resolver} {S : SlotType → SlotType → Prop} {R : Frame → Frame → Prop}

/-- Wherever the second slot is taken, the first one is taken as well. -/
structure SlotType.Simulation (r : Resolver) (S : SlotType → SlotType → Prop) : Prop where
  refl : ∀ {t}, t.isActual → S t t
  accepts : ∀ {s t expected : SlotType}, S s t → (expected.accepts t).run r = .ok true →
    (expected.accepts s).run r = .ok true
  size_eq : ∀ {s t : SlotType}, S s t → s.isSingle = t.isSingle ∧ s.isSecond = t.isSecond
  /-- What is not initialized stands for itself only. -/
  eq_of_uninitialized : ∀ {s t : SlotType}, S s t → s.isUninitialized ∨ t.isUninitialized → s = t
  isElementOf : ∀ {s t} {kind : ElementKind}, S s t → kind.isElementOf t → kind.isElementOf s
  elementType : ∀ {s t : SlotType}, S s t → t.isReferenceArray →
    Follows S (Body.elementType s) (Body.elementType t)
  isArray : ∀ {s t : SlotType}, S s t → t = .null ∨ t.isArray → s = .null ∨ s.isArray

/-- Slots simulate themselves. -/
theorem SlotType.simulation_eq : SlotType.Simulation r Eq where
  refl _ := rfl
  accepts := by rintro _ _ _ rfl accepted; exact accepted
  size_eq := by rintro _ _ rfl; exact ⟨rfl, rfl⟩
  eq_of_uninitialized := fun same _ => same
  isElementOf := by rintro _ _ _ rfl array; exact array
  elementType := by rintro _ _ rfl _; exact .refl _
  isArray := by rintro _ _ rfl array; exact array

namespace Frame

/-- A slot that was taken off or read from each of two frames, and what the frames are then. -/
def Taken (S : SlotType → SlotType → Prop) (R : Frame → Frame → Prop) (p q : SlotType × Frame) :
    Prop :=
  S p.1 q.1 ∧ R p.2 q.2

/-- Several slots that were taken off each of two frames. -/
def TakenSlots (S : SlotType → SlotType → Prop) (R : Frame → Frame → Prop)
    (p q : List SlotType × Frame) : Prop :=
  List.Forall₂ S p.1 q.1 ∧ R p.2 q.2

/-- Whatever succeeds on the second frame succeeds on the first one, and leaves such frames. -/
structure Simulation (r : Resolver) (S : SlotType → SlotType → Prop) (R : Frame → Frame → Prop) :
    Prop extends SlotType.Simulation r S where
  offset_eq : ∀ {f g}, R f g → f.offset = g.offset
  thisPending : ∀ {f g}, R f g → f.thisPending → g.thisPending
  push : ∀ {f g s t}, R f g → S s t → Follows R (f.push s) (g.push t)
  pop? : ∀ {f g t rest}, R f g → g.stack.pop? = some (t, rest) →
    ∃ s rest', f.stack.pop? = some (s, rest') ∧ S s t ∧
      R { f with stack := rest' } { g with stack := rest }
  /-- What is read is something that was expected, and no local that cannot be used. -/
  load : ∀ {f g} (index : Nat) {expected : SlotType}, R f g →
    (expected.accepts .top).run r ≠ .ok true → (f.load index expected).Follows r
      (fun p q => Taken S R p q ∧ (expected.accepts q.1).run r = .ok true) (g.load index expected)
  loadPair : ∀ {f g} (index : Nat) {first second : SlotType}, R f g →
    (first.accepts .top).run r ≠ .ok true → (second.accepts .top).run r ≠ .ok true →
    (f.loadPair index first second).Follows r (fun _ _ => True) (g.loadPair index first second)
  /-- No value begins with a second slot. -/
  store : ∀ {f g s t} (index : Nat), R f g → S s t → t.isSecond = false →
    (f.store index s).Follows r R (g.store index t)
  replaceAll : ∀ {f g old} (name : String), R f g → old.isUninitialized →
    R (f.replaceAll old (.reference name)) (g.replaceAll old (.reference name))
  inHandler : ∀ {f g} (pending : Bool), R f g →
    R (f.inHandler (f.thisPending || pending)) (g.inHandler (g.thisPending || pending))
  at_offset : ∀ {f g} (offset : Nat), R f g → R { f with offset } { g with offset }

/-- Frames simulate themselves. -/
theorem simulation_eq : Simulation r Eq Eq where
  toSimulation := SlotType.simulation_eq
  offset_eq := by rintro _ _ rfl; rfl
  thisPending := by rintro _ _ rfl pending; exact pending
  push := by rintro f _ s _ rfl rfl; exact .refl _
  pop? := by rintro f _ t rest rfl top; exact ⟨t, rest, top, rfl, rfl⟩
  load := by
    rintro f _ index expected rfl _ ⟨t, g⟩ read
    exact ⟨(t, g), read, ⟨rfl, rfl⟩, (load_ok_iff.1 read).2.1.2⟩
  loadPair := by rintro f _ _ _ _ rfl _ _; exact (Check.Follows.refl _).imp fun _ _ _ => trivial
  store := by rintro f _ s _ _ rfl rfl _; exact .refl _
  replaceAll := by rintro f _ _ _ rfl _; rfl
  inHandler := by rintro f _ _ rfl; rfl
  at_offset := by rintro f _ _ rfl; rfl

namespace Simulation
variable {f g : Frame} (h : Simulation r S R)
include h

theorem pushAll (b : R f g) {ss ts : List SlotType} (st : List.Forall₂ S ss ts) :
    Follows R (f.pushAll ss) (g.pushAll ts) := by
  induction st generalizing f g with
  | nil => exact .ok b
  | cons first rest ih => exact (h.push b first).bind fun _ _ next => ih next

/-- The same slots on both frames. -/
theorem pushSame (b : R f g) {ts : List SlotType} (actual : ∀ t ∈ ts, t.isActual) :
    Follows R (f.pushAll ts) (g.pushAll ts) :=
  h.pushAll b (List.forall₂_same.2 fun t ht => h.refl (actual t ht))

theorem pop (b : R f g) : Follows (Taken S R) f.pop g.pop := by
  rintro ⟨t, g'⟩ hg
  unfold Frame.pop at hg
  split at hg
  · cases hg
  · next rest top =>
    cases hg
    obtain ⟨s, rest', top', taken⟩ := h.pop? b top
    refine ⟨(s, { f with stack := rest' }), ?_, taken⟩
    rw [Frame.pop, top']

theorem popExpected (b : R f g) (expected : SlotType) :
    (f.popExpected expected).Follows r (Taken S R) (g.popExpected expected) := by
  unfold Frame.popExpected
  cases top : g.stack.pop? with
  | none => exact .reject
  | some popped =>
    obtain ⟨t, rest⟩ := popped
    obtain ⟨s, rest', top', first, others⟩ := h.pop? b top
    rw [top']
    exact .test (h.accepts first) nofun fun _ => .pure ⟨first, others⟩

theorem popEach (b : R f g) (types : List SlotType) :
    (f.popEach types).Follows r R (g.popEach types) := by
  induction types generalizing f g with
  | nil => exact .pure b
  | cons t types ih => exact (h.popExpected b t).bind fun _ _ taken => ih taken.2

theorem popAll (b : R f g) (types : List SlotType) :
    (f.popAll types).Follows r R (g.popAll types) := h.popEach b _

theorem popPair (b : R f g) : f.popPair.Follows r (TakenSlots S R) g.popPair := by
  refine (Check.Follows.lift (h.pop b)).bind ?_
  rintro ⟨s, f'⟩ ⟨t, g'⟩ ⟨upper, rest⟩
  obtain ⟨single, second⟩ := h.size_eq upper
  have both (expected : SlotType) :
      (f'.popExpected expected >>= fun lower => pure ([s, lower.1], lower.2)).Follows r
        (TakenSlots S R) (g'.popExpected expected >>= fun lower => pure ([t, lower.1], lower.2)) :=
    (h.popExpected rest expected).bind fun _ _ lower =>
      .pure ⟨.cons upper (.cons lower.1 .nil), lower.2⟩
  dsimp only at single second ⊢
  rw [single, second]
  split
  · exact both _
  · split
    · exact both _
    · exact .reject

theorem popSlots (b : R f g) (count : Nat) :
    (f.popSlots count).Follows r (TakenSlots S R) (g.popSlots count) := by
  unfold Frame.popSlots
  split
  · exact .pure ⟨.nil, b⟩
  · exact (h.popExpected b _).bind fun _ _ only => .pure ⟨.cons only.1 .nil, only.2⟩
  · exact h.popPair b

end Simulation
end Frame
end ClassVerifier
