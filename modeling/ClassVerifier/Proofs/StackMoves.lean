import ClassVerifier.Proofs.Run
import ClassVerifier.Frame.Typed
import Mathlib.Data.List.Forall2

/-! What the stack operations of a frame do when they succeed: some slots at the top of the stack
give way to others, and everything else stays. -/
namespace ClassVerifier.Frame
variable {r : Resolver} {f g h : Frame} {popped pushed : List SlotType}

/-- The slots `popped` at the top of the stack give way to `pushed`, and nothing else changes. Both
lists have their top first. -/
structure Moves (f : Frame) (popped pushed : List SlotType) (g : Frame) : Prop where
  stack : ∃ below, f.stack.slots = popped ++ below ∧ g.stack.slots = pushed ++ below
  same : g = { f with stack := g.stack }
  /-- A stack that was not too deep does not become so. -/
  fits : f.stack.depth ≤ f.maxStack → g.stack.depth ≤ f.maxStack

namespace Moves

theorem offset_eq (m : f.Moves popped pushed g) : g.offset = f.offset := by rw [m.same]
theorem used_eq (m : f.Moves popped pushed g) : g.used = f.used := by rw [m.same]
theorem maxLocals_eq (m : f.Moves popped pushed g) : g.maxLocals = f.maxLocals := by rw [m.same]
theorem maxStack_eq (m : f.Moves popped pushed g) : g.maxStack = f.maxStack := by rw [m.same]
theorem locals_eq (m : f.Moves popped pushed g) : g.locals = f.locals := by rw [m.same]

theorem thisPending_eq (m : f.Moves popped pushed g) : g.thisPending = f.thisPending := by
  rw [m.same]

theorem refl (f : Frame) : f.Moves [] [] f := ⟨⟨_, rfl, rfl⟩, rfl, fun fits => fits⟩

/-- Taking off more slots. -/
theorem pop {p q : List SlotType} (a : f.Moves p [] g) (b : g.Moves q [] h) :
    f.Moves (p ++ q) [] h := by
  obtain ⟨below, hf, hg⟩ := a.stack
  obtain ⟨rest, hg', hh⟩ := b.stack
  refine ⟨⟨rest, ?_, hh⟩, ?_, fun fits => ?_⟩
  · rw [hf, List.append_assoc, ← hg', hg]
    rfl
  · rw [b.same, a.same]
  · exact a.maxStack_eq ▸ b.fits (a.maxStack_eq ▸ a.fits fits)

/-- Putting on slots after others were taken off or put on. -/
theorem push {p q s : List SlotType} (a : f.Moves p q g) (b : g.Moves [] s h) :
    f.Moves p (s ++ q) h := by
  obtain ⟨below, hf, hg⟩ := a.stack
  obtain ⟨rest, hg', hh⟩ := b.stack
  refine ⟨⟨below, hf, ?_⟩, ?_, fun fits => ?_⟩
  · rw [hh, List.append_assoc, ← hg, hg']
    rfl
  · rw [b.same, a.same]
  · exact a.maxStack_eq ▸ b.fits (a.maxStack_eq ▸ a.fits fits)

/-- Every slot of the new stack was put on or was there before. -/
theorem mem_stack (m : f.Moves popped pushed g) {t : SlotType} (ht : t ∈ g.stack.slots) :
    t ∈ pushed ∨ t ∈ f.stack.slots := by
  obtain ⟨below, hf, hg⟩ := m.stack
  rw [hg] at ht
  rcases List.mem_append.1 ht with ht | ht
  · exact .inl ht
  · exact .inr (hf ▸ List.mem_append_right _ ht)

theorem mem_popped (m : f.Moves popped pushed g) {t : SlotType} (ht : t ∈ popped) :
    t ∈ f.stack.slots := by
  obtain ⟨below, hf, _⟩ := m.stack
  exact hf ▸ List.mem_append_left _ ht

/-- The slot behind those that were taken off first. -/
theorem getElem?_stack {p : List SlotType} {t : SlotType} (m : f.Moves (p ++ [t]) pushed g) :
    f.stack.slots[p.length]? = some t := by
  obtain ⟨below, hf, _⟩ := m.stack
  rw [hf, List.append_assoc]
  simp

/-- The frame that comes of it, by its stack alone. -/
theorem eq_ofSlots (m : f.Moves popped pushed g) : ∃ below,
    f.stack.slots = popped ++ below ∧ g = { f with stack := .ofSlots (pushed ++ below) } := by
  obtain ⟨below, hf, hg⟩ := m.stack
  have stack : g.stack = .ofSlots (pushed ++ below) := Stack.ext hg
  exact ⟨below, hf, by rw [m.same, stack]⟩

end Moves

theorem push_moves {t : SlotType} (hp : f.push t = .ok g) : f.Moves [] [t] g := by
  unfold push at hp
  split at hp
  · next room =>
    cases hp
    exact ⟨⟨_, rfl, rfl⟩, rfl, fun _ => room⟩
  · simp at hp

theorem pushAll_moves {ts : List SlotType} (hp : f.pushAll ts = .ok g) :
    f.Moves [] ts.reverse g := by
  induction ts generalizing f with
  | nil =>
    cases hp
    exact .refl _
  | cons t ts ih =>
    obtain ⟨middle, ht, hts⟩ := except_bind_ok.1 hp
    rw [List.reverse_cons]
    exact (push_moves ht).push (ih hts)

/-- A stack that is not too deep takes more slots just in case there is room for all of them. -/
theorem pushAll_ok {ts : List SlotType} (fits : f.stack.depth ≤ f.maxStack) :
    f.pushAll ts = .ok g ↔ f.stack.depth + ts.length ≤ f.maxStack ∧
      g = { f with stack := .ofSlots (ts.reverse ++ f.stack.slots) } := by
  constructor
  · intro hp
    have moves := pushAll_moves hp
    obtain ⟨below, hf, rfl⟩ := moves.eq_ofSlots
    have room : (ts.reverse ++ below).length ≤ f.maxStack := moves.fits fits
    rw [List.nil_append] at hf
    rw [f.stack.depth_eq, hf]
    rw [List.length_append, List.length_reverse] at room
    exact ⟨by omega, rfl⟩
  · rintro ⟨room, rfl⟩
    induction ts generalizing f with
    | nil => rw [List.reverse_nil, List.nil_append, Stack.ofSlots_slots, pushAll]
    | cons t ts ih =>
      rw [List.length_cons] at room
      have first : f.push t = .ok { f with stack := f.stack.push t } := if_pos (by omega)
      have deeper : f.stack.depth + 1 ≤ f.maxStack := by omega
      have others : f.stack.depth + 1 + ts.length ≤ f.maxStack := by omega
      refine except_bind_ok.2 ⟨_, first, (ih deeper others).trans ?_⟩
      rw [List.reverse_cons, List.append_assoc]
      rfl

theorem pop_moves {t : SlotType} (hp : f.pop = .ok (t, g)) : f.Moves [t] [] g := by
  unfold pop at hp
  split at hp
  · simp at hp
  · next rest hs =>
    cases hp
    have hs := Stack.pop?_eq_some_iff.1 hs
    refine ⟨⟨rest.slots, congrArg Stack.slots hs, rfl⟩, rfl, fun fits => ?_⟩
    rw [hs] at fits
    exact Nat.le_of_succ_le fits

theorem pop_ok {t : SlotType} : f.pop = .ok (t, g) ↔
    ∃ below, f.stack.slots = t :: below ∧ g = { f with stack := .ofSlots below } := by
  constructor
  · intro hp
    exact (pop_moves hp).eq_ofSlots
  · rintro ⟨below, hs, rfl⟩
    have top : f.stack = (Stack.ofSlots below).push t := Stack.ext hs
    rw [pop, Stack.pop?_eq_some_iff.2 top]

theorem popExpected_moves {expected t : SlotType}
    (hp : (f.popExpected expected).run r = .ok (t, g)) :
    (expected.accepts t).run r = .ok true ∧ f.Moves [t] [] g := by
  unfold popExpected at hp
  split at hp
  · simp at hp
  · next actual rest hs =>
    obtain ⟨accepted, ha, hp⟩ := Check.bind_ok.1 hp
    cases accepted with
    | false => simp at hp
    | true =>
      cases Check.pure_ok.1 hp
      exact ⟨ha, pop_moves (by rw [pop, hs])⟩

theorem popExpected_ok {expected t : SlotType} :
    (f.popExpected expected).run r = .ok (t, g) ↔ (∃ below, f.stack.slots = t :: below ∧
      g = { f with stack := .ofSlots below }) ∧ (expected.accepts t).run r = .ok true := by
  constructor
  · intro hp
    obtain ⟨accepted, moves⟩ := popExpected_moves hp
    exact ⟨moves.eq_ofSlots, accepted⟩
  · rintro ⟨⟨below, hs, rfl⟩, accepted⟩
    have top : f.stack = (Stack.ofSlots below).push t := Stack.ext hs
    rw [popExpected, Stack.pop?_eq_some_iff.2 top]
    exact Check.bind_ok.2 ⟨true, accepted, rfl⟩

/-- Each slot is accepted where the type beside it is expected. -/
abbrev Accepted (r : Resolver) : List SlotType → List SlotType → Prop :=
  List.Forall₂ fun expected t => (expected.accepts t).run r = .ok true

theorem popEach_moves {types : List SlotType} (hp : (f.popEach types).run r = .ok g) :
    ∃ popped, Accepted r types popped ∧ f.Moves popped [] g := by
  induction types generalizing f with
  | nil =>
    cases Check.pure_ok.1 hp
    exact ⟨[], .nil, .refl _⟩
  | cons t types ih =>
    obtain ⟨⟨actual, middle⟩, ht, hts⟩ := Check.bind_ok.1 hp
    obtain ⟨ha, hm⟩ := popExpected_moves ht
    obtain ⟨popped, has, hms⟩ := ih hts
    exact ⟨actual :: popped, .cons ha has, hm.pop hms⟩

theorem popAll_moves {types : List SlotType} (hp : (f.popAll types).run r = .ok g) :
    ∃ popped, Accepted r types.reverse popped ∧ f.Moves popped [] g :=
  popEach_moves hp

theorem popPair_moves (hp : f.popPair.run r = .ok (popped, g)) : f.Moves popped [] g := by
  obtain ⟨⟨upper, middle⟩, hu, hp⟩ := Check.bind_ok.1 hp
  have hm := pop_moves (Check.lift_ok.1 hu)
  dsimp only at hp
  split at hp
  · obtain ⟨⟨lower, rest⟩, hl, he⟩ := Check.bind_ok.1 hp
    cases Check.pure_ok.1 he
    exact hm.pop (popExpected_moves hl).2
  · split at hp
    · obtain ⟨⟨lower, rest⟩, hl, he⟩ := Check.bind_ok.1 hp
      cases Check.pure_ok.1 he
      exact hm.pop (popExpected_moves hl).2
    · simp at hp

theorem popSlots_moves {count : Nat} (hp : (f.popSlots count).run r = .ok (popped, g)) :
    f.Moves popped [] g := by
  unfold popSlots at hp
  split at hp
  · cases Check.pure_ok.1 hp
    exact .refl f
  · obtain ⟨⟨only, rest⟩, ho, he⟩ := Check.bind_ok.1 hp
    cases Check.pure_ok.1 he
    exact (popExpected_moves ho).2
  · exact popPair_moves hp

end ClassVerifier.Frame
