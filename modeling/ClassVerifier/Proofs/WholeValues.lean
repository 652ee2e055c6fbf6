import ClassVerifier.Execution
import ClassVerifier.Proofs.FrameShape

/-! Whole values on the stack. Where whole values are expected, only whole ones are taken off, and
whole ones are put on, so the stack operations lead from one frame of a method to another. -/
namespace ClassVerifier
open StackMap (Surroundings)

/-- What is accepted where a slot is expected is that slot, unless both are neither slot of a long
or double. -/
theorem SlotType.whole_of_accepts {r : Resolver} {expected t : SlotType}
    (h : (expected.accepts t).run r = .ok true)
    (plain : expected ≠ .bogus ∧ expected ≠ .anyDouble) :
    t = expected ∨ expected.IsWhole ∧ t.IsWhole := by
  unfold accepts at h
  split at h
  · next he =>
    rw [Bool.or_eq_true, decide_eq_true_eq, decide_eq_true_eq] at he
    exact .inl (he.resolve_right plain.1).symm
  · right
    split at h
    · exact ⟨⟨rfl, rfl⟩, .of_isSingle (Check.pure_ok.1 h)⟩
    · exact absurd rfl plain.2
    · exact ⟨⟨rfl, rfl⟩, .of_isSingle (isSingle_of_reference (Check.pure_ok.1 h))⟩
    · exact ⟨⟨rfl, rfl⟩, rfl, rfl⟩
    · exact ⟨⟨rfl, rfl⟩, rfl, rfl⟩
    · cases h

/-- Where one slot is expected that is neither slot of a long or double, the same is accepted. -/
theorem SlotType.IsWhole.of_accepts {r : Resolver} {expected t : SlotType} (h : expected.IsWhole)
    (plain : expected ≠ .bogus ∧ expected ≠ .anyDouble)
    (accepted : (expected.accepts t).run r = .ok true) : t.IsWhole := by
  rcases whole_of_accepts accepted plain with rfl | ⟨_, whole⟩
  · exact h
  · exact whole

private theorem SlotType.not_whole_of_second? {t s : SlotType} (h : t.second? = some s) :
    ¬t.IsWhole ∧ ¬s.IsWhole := by
  cases t <;> cases h <;> simp [IsWhole, second?, isSecond]

/-- Where whole values are expected, whole values are accepted. -/
theorem Paired.of_accepted {r : Resolver} {types slots : List SlotType} (paired : Paired types)
    (plain : ∀ t ∈ types, t ≠ .bogus ∧ t ≠ .anyDouble)
    (h : List.Forall₂ (fun t s => (SlotType.accepts t s).run r = .ok true) types slots) :
    Paired slots := by
  have beside {k : Nat} {t s : SlotType} (ht : types[k]? = some t) (hs : slots[k]? = some s) :
      s = t ∨ t.IsWhole ∧ s.IsWhole := by
    obtain ⟨hk, rfl⟩ := List.getElem?_eq_some_iff.1 ht
    obtain ⟨hk', rfl⟩ := List.getElem?_eq_some_iff.1 hs
    exact SlotType.whole_of_accepts (h.get hk hk') (plain _ (List.getElem_mem hk))
  have expected {k : Nat} {s : SlotType} (hs : slots[k]? = some s) (whole : ¬s.IsWhole) :
      types[k]? = some s := by
    have hk : k < types.length := h.length_eq ▸ (List.getElem?_eq_some_iff.1 hs).1
    have ht := List.getElem?_eq_getElem hk
    rcases beside ht hs with he | ⟨_, hw⟩
    · rw [he, ht]
    · exact absurd hw whole
  have found {k : Nat} {t : SlotType} (ht : types[k]? = some t) (whole : ¬t.IsWhole) :
      slots[k]? = some t := by
    have hk : k < slots.length := h.length_eq ▸ (List.getElem?_eq_some_iff.1 ht).1
    have hs := List.getElem?_eq_getElem hk
    rcases beside ht hs with he | ⟨hw, _⟩
    · rw [← he, hs]
    · exact absurd hw whole
  constructor
  · intro k t s hk hs
    obtain ⟨first, second⟩ := SlotType.not_whole_of_second? hs
    exact found (paired.followed k t s (expected hk first) hs) second
  · intro k s hk hs
    have second : ¬s.IsWhole := fun w => by
      rw [w.2] at hs
      cases hs
    obtain ⟨j, t, rfl, ht, hts⟩ := paired.preceded k s (expected hk second) hs
    exact ⟨j, t, rfl, found ht (SlotType.not_whole_of_second? hts).1, hts⟩

/-- The types that are expected have the last one for the top, and the slots have the top first. -/
theorem Paired.of_popped {r : Resolver} {types slots : List SlotType} (paired : Paired types)
    (plain : ∀ t ∈ types, t ≠ .bogus ∧ t ≠ .anyDouble)
    (accepted : Frame.Accepted r types.reverse slots) : Paired slots.reverse := by
  have beside : List.Forall₂ (fun t s => (SlotType.accepts t s).run r = .ok true) types
      slots.reverse := by
    rw [← List.forall₂_reverse_iff, List.reverse_reverse]
    exact accepted
  exact paired.of_accepted plain beside

/-- The slots of whole values, all of them initialized. -/
structure Values (slots : List SlotType) : Prop where
  paired : Paired slots
  actual : ∀ t ∈ slots, t.isActual
  initialized : AllInitialized slots

namespace Values

theorem nil : Values [] := ⟨.nil, nofun, .nil⟩

theorem append {a b : List SlotType} (ha : Values a) (hb : Values b) : Values (a ++ b) where
  paired := ha.paired.append hb.paired
  actual := List.forall_mem_append.2 ⟨ha.actual, hb.actual⟩
  initialized := List.forall_mem_append.2 ⟨ha.initialized, hb.initialized⟩

theorem flatMap {α : Type} {xs : List α} {slots : α → List SlotType}
    (h : ∀ x ∈ xs, Values (slots x)) : Values (xs.flatMap slots) := by
  induction xs with
  | nil => exact nil
  | cons x xs ih =>
    obtain ⟨hx, h⟩ := List.forall_mem_cons.1 h
    exact hx.append (ih h)

theorem slots {t : SlotType} (first : t.isSecond = false) (actual : t.isActual)
    (initialized : t.isUninitialized = false) : Values t.slots := by
  refine ⟨.slots first, fun s hs => ?_, .slots initialized⟩
  rcases List.mem_cons.1 hs with rfl | hs
  · exact actual
  · cases t <;> simp [SlotType.second?] at hs <;> rw [hs] <;> rfl

theorem reference (name : String) : Values [.reference name] :=
  slots (t := .reference name) rfl rfl rfl

theorem slotsOf (type : FieldType) : Values (SlotType.slotsOf type) := by
  cases type with
  | primitive kind => cases kind <;> exact slots rfl rfl rfl
  | object name => exact reference _
  | array component => exact reference _

theorem number (kind : NumberKind) : Values kind.slots := by
  cases kind <;> exact slots rfl rfl rfl

theorem integer : Values [.integer] := number .int

theorem element (kind : ElementKind) : Values kind.slots := by
  cases kind with
  | number kind => exact number kind
  | reference => exact reference _
  | byte | char | short => exact integer

theorem constant {pool : ConstantPool} {index : UInt16} {wide : Bool} {kind : ConstantKind}
    {slots : List SlotType} (h : Body.constantSlots pool index wide kind = .ok slots) :
    Values slots := by
  cases kind with
  | dynamic =>
    obtain ⟨descriptor, _, h⟩ := except_bind_ok.1 h
    dsimp only at h
    split at h
    · cases h
    · obtain ⟨_, rfl⟩ := except_ite_ok.1 h
      exact slotsOf _
  | string | classRef | methodHandle | methodType =>
    cases h
    exact reference _
  | integer | float | long | double =>
    cases h
    exact Values.slots rfl rfl rfl
  | _ => cases h

/-- Initialized values can be asked for as they are. -/
theorem of_accepted {r : Resolver} {types slots : List SlotType} (h : Values types)
    (accepted : Frame.Accepted r types.reverse slots) : Paired slots.reverse := by
  refine h.paired.of_popped (fun t ht => ?_) accepted
  constructor
  · rintro rfl
    cases h.actual _ ht
  · rintro rfl
    cases h.actual _ ht

theorem knows {slots : List SlotType} (h : Values slots) (s : Surroundings) :
    ∀ t ∈ slots, s.Knows t :=
  fun t ht => .of_initialized (h.actual t ht) (h.initialized t ht)

end Values

namespace SlotType
variable {r : Resolver} {t : SlotType}

theorem isSingle_iff (actual : t.isActual) : t.isSingle ↔ t.IsWhole := by
  refine ⟨.of_isSingle, fun whole => ?_⟩
  cases t with
  | bogus | anySingle | anyDouble | anyReference => cases actual
  | long | double => cases whole.1
  | longSecond | doubleSecond => cases whole.2
  | _ => rfl

theorem accepts_anySingle (actual : t.isActual) :
    (anySingle.accepts t).run r = .ok true ↔ t.IsWhole := by
  rw [← isSingle_iff actual]
  cases t with
  | anySingle => cases actual
  | _ => simp [accepts]

theorem accepts_anyDouble (actual : t.isActual) :
    (anyDouble.accepts t).run r = .ok true ↔ t.isFirst := by
  cases t with
  | anyDouble => cases actual
  | _ => simp [accepts]

end SlotType

namespace Frame
variable {r : Resolver} {f g : Frame} {popped : List SlotType}

theorem WellFormed.actual_operand (h : f.WellFormed) {t : SlotType} (ht : t ∈ f.stack.slots) :
    t.isActual := h.actual t (.inr ht)

private theorem popPair_ok (h : f.WellFormed) : f.popPair.run r = .ok (popped, g) ↔
    popped.length = 2 ∧ Paired popped.reverse ∧
      ∃ below, f.stack.slots = popped ++ below ∧ g = { f with stack := .ofSlots below } := by
  constructor
  · intro hp
    obtain ⟨⟨upper, _⟩, hu, hp⟩ := Check.bind_ok.1 hp
    obtain ⟨rest, hs, rfl⟩ := pop_ok.1 (Check.lift_ok.1 hu)
    dsimp only at hp
    split at hp
    · next single =>
      obtain ⟨⟨lower, _⟩, hl, he⟩ := Check.bind_ok.1 hp
      cases Check.pure_ok.1 he
      obtain ⟨⟨below, hb, rfl⟩, accepted⟩ := popExpected_ok.1 hl
      cases (hb : rest = lower :: below)
      have whole := (SlotType.accepts_anySingle (h.actual_operand (by simp [hs]))).1 accepted
      exact ⟨rfl, Paired.pair_iff.2 (.inl ⟨whole, .of_isSingle single⟩), below, hs, rfl⟩
    · split at hp
      · next second =>
        obtain ⟨⟨lower, _⟩, hl, he⟩ := Check.bind_ok.1 hp
        cases Check.pure_ok.1 he
        obtain ⟨⟨below, hb, rfl⟩, _⟩ := popExpected_ok.1 hl
        cases (hb : rest = lower :: below)
        have operands : Paired ((below.reverse ++ [lower]) ++ [upper]) := by
          have all := h.operands_paired
          rwa [operands, hs, List.reverse_cons, List.reverse_cons] at all
        obtain ⟨_, first, he, pair⟩ := operands.concat_second second
        cases (List.append_inj' he rfl).2
        exact ⟨rfl, Paired.pair_iff.2 (.inr pair), below, hs, rfl⟩
      · simp at hp
  · rintro ⟨two, paired, below, hs, rfl⟩
    obtain ⟨upper, lower, rfl⟩ := List.length_eq_two.1 two
    have upperActual := h.actual_operand (t := upper) (by simp [hs])
    have lowerActual := h.actual_operand (t := lower) (by simp [hs])
    refine Check.bind_ok.2 ⟨_, Check.lift_ok.2 (pop_ok.2 ⟨lower :: below, hs, rfl⟩), ?_⟩
    dsimp only
    rcases Paired.pair_iff.1 paired with ⟨hl, hu⟩ | pair
    · have accepted := (SlotType.accepts_anySingle (r := r) lowerActual).2 hl
      rw [if_pos ((SlotType.isSingle_iff upperActual).2 hu)]
      exact Check.bind_ok.2 ⟨_, popExpected_ok.2 ⟨⟨below, rfl, rfl⟩, accepted⟩, rfl⟩
    · have second : upper.isSecond := SlotType.isSecond_of_second? pair
      have single : ¬upper.isSingle := by
        rw [SlotType.isSingle_iff upperActual, SlotType.IsWhole, second]
        simp
      have first : lower.isFirst := SlotType.isFirst_iff.2 ⟨upper, pair⟩
      have accepted := (SlotType.accepts_anyDouble (r := r) lowerActual).2 first
      rw [if_neg single, if_pos second]
      exact Check.bind_ok.2 ⟨_, popExpected_ok.2 ⟨⟨below, rfl, rfl⟩, accepted⟩, rfl⟩

/-- Slots are taken off just in case there are enough of them and no value is split. -/
theorem popSlots_ok {count : Nat} (h : f.WellFormed) :
    (f.popSlots count).run r = .ok (popped, g) ↔
      popped.length = min count 2 ∧ Paired popped.reverse ∧
        ∃ below, f.stack.slots = popped ++ below ∧ g = { f with stack := .ofSlots below } := by
  match count with
  | 0 =>
    rw [popSlots, Check.pure_ok, Prod.mk.injEq]
    constructor
    · rintro ⟨rfl, rfl⟩
      exact ⟨rfl, .nil, f.stack.slots, rfl, by rw [Stack.ofSlots_slots]⟩
    · rintro ⟨none, _, below, hs, rfl⟩
      cases List.length_eq_zero_iff.1 none
      exact ⟨rfl, by rw [← List.nil_append below, ← hs, Stack.ofSlots_slots]⟩
  | 1 =>
    constructor
    · intro hp
      obtain ⟨⟨only, _⟩, ho, he⟩ := Check.bind_ok.1 hp
      cases Check.pure_ok.1 he
      obtain ⟨⟨below, hs, rfl⟩, accepted⟩ := popExpected_ok.1 ho
      have whole := (SlotType.accepts_anySingle (h.actual_operand (by simp [hs]))).1 accepted
      exact ⟨rfl, .singleton whole, below, hs, rfl⟩
    · rintro ⟨one, paired, below, hs, rfl⟩
      obtain ⟨only, rfl⟩ := List.length_eq_one_iff.1 one
      have actual := h.actual_operand (t := only) (by simp [hs])
      have whole := Paired.singleton_iff.1 paired
      have accepted := (SlotType.accepts_anySingle (r := r) actual).2 whole
      exact Check.bind_ok.2 ⟨_, popExpected_ok.2 ⟨⟨below, hs, rfl⟩, accepted⟩, rfl⟩
  | n + 2 =>
    rw [show min (n + 2) 2 = 2 by omega]
    exact popPair_ok h

theorem WellFormed.popSlots {count : Nat} (h : f.WellFormed)
    (hp : (f.popSlots count).run r = .ok (popped, g)) : g.WellFormed := by
  obtain ⟨_, paired, _⟩ := (popSlots_ok h).1 hp
  exact h.moves (popSlots_moves hp) paired .nil (List.forall_mem_nil _)

end Frame

namespace StackMap.Surroundings.Represents
variable {s : Surroundings} {f g : Frame} {r : Resolver}

theorem pushAll {types : List SlotType} (h : s.Represents f) (values : Values types)
    (pushed : f.pushAll types = .ok g) : s.Represents g := by
  refine h.moves (Frame.pushAll_moves pushed) .nil ?_ fun t ht => ?_
  · rw [List.reverse_reverse]
    exact values.paired
  · exact values.knows s t (List.mem_reverse.1 ht)

theorem push {t : SlotType} (h : s.Represents f) (whole : t.IsWhole) (known : s.Knows t)
    (pushed : f.push t = .ok g) : s.Represents g :=
  h.moves (Frame.push_moves pushed) .nil (.singleton whole)
    fun _ ht => List.mem_singleton.1 ht ▸ known

theorem popAll {types : List SlotType} (h : s.Represents f) (values : Values types)
    (popped : (f.popAll types).run r = .ok g) : s.Represents g := by
  obtain ⟨slots, accepted, moves⟩ := Frame.popAll_moves popped
  exact h.moves moves (values.of_accepted accepted) .nil nofun

/-- The slot that was taken off was held, and is whole as the expected one is. -/
theorem popExpected {expected t : SlotType} (h : s.Represents f) (whole : expected.IsWhole)
    (plain : expected ≠ .bogus ∧ expected ≠ .anyDouble)
    (popped : (f.popExpected expected).run r = .ok (t, g)) :
    s.Represents g ∧ t.IsWhole ∧ s.Knows t := by
  obtain ⟨accepted, moves⟩ := Frame.popExpected_moves popped
  have hw := whole.of_accepts plain accepted
  exact ⟨h.moves moves (.singleton hw) .nil nofun, hw,
    h.knows (.inr (moves.mem_popped (List.mem_singleton_self t)))⟩

theorem popReference {t : SlotType} (h : s.Represents f)
    (popped : (f.popExpected .anyReference).run r = .ok (t, g)) :
    s.Represents g ∧ t.IsWhole ∧ s.Knows t :=
  h.popExpected ⟨rfl, rfl⟩ (by simp) popped

theorem popSlots {count : Nat} {slots : List SlotType} (h : s.Represents f)
    (popped : (f.popSlots count).run r = .ok (slots, g)) :
    s.Represents g ∧ Paired slots.reverse ∧ ∀ t ∈ slots, s.Knows t := by
  have moves := Frame.popSlots_moves popped
  obtain ⟨_, paired, _⟩ := (Frame.popSlots_ok h.wellFormed).1 popped
  exact ⟨h.moves moves paired .nil nofun, paired, fun t ht => h.knows (.inr (moves.mem_popped ht))⟩

end StackMap.Surroundings.Represents
end ClassVerifier
