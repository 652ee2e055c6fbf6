import ClassVerifier.Proofs.EntryFrame
import ClassVerifier.Proofs.FrameLocals
import ClassVerifier.Proofs.SlotPairs
import ClassVerifier.StackMap.Decode

/-! The shape that every frame has between two instructions: as many locals as the method declares,
no more operands than it declares, whole longs and doubles only, and no object that nothing
allocates. Stack moves, stores and constructor calls keep it. -/
namespace ClassVerifier

namespace Frame
variable {t : SlotType} {locals : Array SlotType} {index : Nat} {types : List SlotType}

private theorem getElem?_writes (n k : Nat) :
    ((types.zipIdx n).foldl (fun locals (t, i) => locals.setIfInBounds (index + i) t) locals)[k]? =
      if index + n ≤ k ∧ k < index + n + types.length ∧ k < locals.size then types[k - (index + n)]?
      else locals[k]? := by
  induction types generalizing n locals with
  | nil =>
    rw [if_neg (by rw [List.length_nil]; omega)]
    rfl
  | cons t types ih =>
    rw [List.zipIdx_cons, List.foldl_cons, ih, Array.size_setIfInBounds, List.length_cons,
      Array.getElem?_setIfInBounds]
    by_cases here : index + n = k
    · subst here
      by_cases room : index + n < locals.size
      · rw [if_neg (by omega), if_pos rfl, if_pos room, if_pos (by omega), Nat.sub_self]
        rfl
      · rw [if_neg (by omega), if_pos rfl, if_neg room, if_neg (by omega),
          Array.getElem?_eq_none (by omega)]
    · rw [if_neg here]
      by_cases inside : index + n + 1 ≤ k ∧ k < index + n + (types.length + 1) ∧ k < locals.size
      · rw [if_pos (by omega), if_pos (by omega),
          show k - (index + n) = k - (index + (n + 1)) + 1 by omega]
        rfl
      · rw [if_neg (by omega), if_neg (by omega)]

private theorem getElem?_cleared {p : Prop} [Decidable p] (j k : Nat) :
    (if p then locals.setIfInBounds j .top else locals)[k]? =
      if p ∧ k = j then locals[k]?.map fun _ => .top else locals[k]? := by
  by_cases hp : p
  · by_cases hk : k = j
    · rw [if_pos hp, if_pos ⟨hp, hk⟩, hk, Array.getElem?_setIfInBounds, if_pos rfl]
      by_cases room : j < locals.size
      · rw [if_pos room, Array.getElem?_eq_getElem room]
        rfl
      · rw [if_neg room, Array.getElem?_eq_none (Nat.le_of_not_lt room)]
        rfl
    · rw [if_pos hp, if_neg fun h => hk h.2, Array.getElem?_setIfInBounds_ne (Ne.symm hk)]
  · rw [if_neg hp, if_neg fun h => hp h.1]

/-- A local that a write spoils: the other slot of a value of two slots that is half overwritten. -/
def Spoiled (locals : Array SlotType) (index size k : Nat) : Prop :=
  k = index + size ∧ (locals.getD (index + size - 1) .top).isFirst ∨
    k + 1 = index ∧ (locals.getD index .top).isSecond

instance (index size k : Nat) : Decidable (Spoiled locals index size k) :=
  inferInstanceAs (Decidable (_ ∨ _))

/-- What a write leaves at every place. -/
theorem getElem?_overwrite_eq (room : index + types.length ≤ locals.size) (k : Nat) :
    (overwrite locals index types)[k]? =
      if index ≤ k ∧ k < index + types.length then types[k - index]?
      else if Spoiled locals index types.length k then locals[k]?.map fun _ => .top
      else locals[k]? := by
  rw [overwrite, getElem?_writes, getElem?_cleared, getElem?_cleared]
  simp only [Nat.add_zero, apply_ite Array.size, Array.size_setIfInBounds, ite_self]
  by_cases inside : index ≤ k ∧ k < index + types.length
  · rw [if_pos (by omega), if_pos inside]
  · rw [if_neg (by omega), if_neg inside]
    have before : ((locals.getD index .top).isSecond && decide (0 < index)) = true ∧ k = index - 1 ↔
        k + 1 = index ∧ (locals.getD index .top).isSecond := by
      rw [Bool.and_eq_true, decide_eq_true_eq]
      constructor
      · rintro ⟨⟨hs, hi⟩, rfl⟩
        exact ⟨by omega, hs⟩
      · rintro ⟨rfl, hs⟩
        exact ⟨⟨hs, by omega⟩, rfl⟩
    by_cases left : k + 1 = index ∧ (locals.getD index .top).isSecond
    · have away : k ≠ index + types.length := by omega
      rw [if_pos (before.2 left), if_neg fun h => away h.2, if_pos (.inr left)]
    · rw [if_neg (mt before.1 left)]
      by_cases right : k = index + types.length ∧
          (locals.getD (index + types.length - 1) .top).isFirst
      · rw [if_pos ⟨right.2, right.1⟩, if_pos (.inl right)]
      · rw [if_neg fun h => right h.symm, if_neg fun h => h.elim right left]

theorem getD_of_getElem? {k : Nat} (h : locals[k]? = some t) : locals.getD k .top = t := by
  rw [Array.getD_eq_getD_getElem?, h, Option.getD_some]

/-- A local that is not just `top` is there. -/
private theorem getElem?_of_getD {k : Nat} {p : SlotType → Bool} (unusable : p .top = false)
    (h : p (locals.getD k .top)) : ∃ t, locals[k]? = some t ∧ p t := by
  rw [Array.getD_eq_getD_getElem?] at h
  cases hk : locals[k]? with
  | none =>
    rw [hk, Option.getD_none, unusable] at h
    cases h
  | some t =>
    rw [hk] at h
    exact ⟨t, rfl, h⟩

/-- The second slot of a value is right behind the first one. -/
theorem next_of_paired (h : Paired locals.toList) {k : Nat} {s : SlotType}
    (hk : locals[k]? = some t) (hs : t.second? = some s) : locals[k + 1]? = some s := by
  rw [← Array.getElem?_toList] at hk ⊢
  exact h.followed k t s hk hs

theorem next_of_isFirst (h : Paired locals.toList) {k : Nat}
    (first : (locals.getD k .top).isFirst) : ∃ s, locals[k + 1]? = some s ∧ s.isSecond := by
  obtain ⟨t, hk, first⟩ := getElem?_of_getD rfl first
  obtain ⟨s, hs⟩ := SlotType.isFirst_iff.1 first
  exact ⟨s, next_of_paired h hk hs, SlotType.isSecond_of_second? hs⟩

theorem previous_of_isSecond (h : Paired locals.toList) {k : Nat}
    (second : (locals.getD (k + 1) .top).isSecond) : ∃ t, locals[k]? = some t ∧ t.isFirst := by
  obtain ⟨s, hk, second⟩ := getElem?_of_getD rfl second
  rw [← Array.getElem?_toList] at hk
  obtain ⟨j, t, hj, ht, hs⟩ := h.preceded (k + 1) s hk second
  cases Nat.succ.inj hj
  rw [Array.getElem?_toList] at ht
  exact ⟨t, ht, SlotType.isFirst_iff.2 ⟨s, hs⟩⟩

/-- A local that a write neither sets nor spoils. -/
private def Intact (locals : Array SlotType) (index size k : Nat) : Prop :=
  ¬(index ≤ k ∧ k < index + size) ∧ ¬Spoiled locals index size k

private theorem getElem?_of_intact (room : index + types.length ≤ locals.size) {k : Nat}
    (intact : Intact locals index types.length k) :
    (overwrite locals index types)[k]? = locals[k]? := by
  rw [getElem?_overwrite_eq room, if_neg intact.1, if_neg intact.2]

/-- What is there behind a write without having been written is intact, unless it is unusable. -/
private theorem intact_of_outside (room : index + types.length ≤ locals.size) {k : Nat}
    (outside : ¬(index ≤ k ∧ k < index + types.length)) (ht : t ≠ .top)
    (hk : (overwrite locals index types)[k]? = some t) : Intact locals index types.length k := by
  refine ⟨outside, fun spoiled => ht ?_⟩
  rw [getElem?_overwrite_eq room, if_neg outside, if_pos spoiled] at hk
  obtain ⟨_, _, he⟩ := Option.map_eq_some_iff.1 hk
  exact he.symm

/-- Of the two slots of a value both are intact or none is. -/
private theorem intact_pair (h : Paired locals.toList) {size k : Nat} {s : SlotType}
    (some : 0 < size) (ht : locals[k]? = .some t) (hs : t.second? = .some s) :
    Intact locals index size k ↔ Intact locals index size (k + 1) := by
  have next := next_of_paired h ht hs
  have first : t.isFirst := SlotType.isFirst_iff.2 ⟨s, hs⟩
  have second : s.isSecond := SlotType.isSecond_of_second? hs
  constructor
  · rintro ⟨outside, safe⟩
    refine ⟨fun inside => ?_, ?_⟩
    · obtain rfl : index = k + 1 := by omega
      exact safe (.inr ⟨rfl, by rwa [getD_of_getElem? next]⟩)
    · rintro (⟨he, _⟩ | ⟨rfl, other⟩)
      · exact outside (by omega)
      · obtain ⟨u, hu, first⟩ := previous_of_isSecond h other
        cases next.symm.trans hu
        cases s <;> cases second <;> cases first
  · rintro ⟨outside, safe⟩
    refine ⟨fun inside => ?_, ?_⟩
    · have last : k + 1 = index + size := by omega
      refine safe (.inl ⟨last, ?_⟩)
      rwa [← last, Nat.add_sub_cancel, getD_of_getElem? ht]
    · rintro (⟨rfl, other⟩ | ⟨rfl, _⟩)
      · obtain ⟨u, hu, second⟩ := next_of_isFirst h other
        rw [Nat.sub_add_cancel (by omega), ht] at hu
        cases hu
        cases t <;> cases first <;> cases second
      · exact outside (by omega)

/-- A write leaves whole values only. -/
theorem paired_overwrite (h : Paired locals.toList) (written : Paired types) (some : types ≠ [])
    (room : index + types.length ≤ locals.size) :
    Paired (overwrite locals index types).toList := by
  have size := List.length_pos_iff.2 some
  constructor
  · intro k t s hk hs
    rw [Array.getElem?_toList] at hk ⊢
    by_cases inside : index ≤ k ∧ k < index + types.length
    · rw [getElem?_overwrite_eq room, if_pos inside] at hk
      have next := written.followed _ t s hk hs
      have hlt := (List.getElem?_eq_some_iff.1 next).1
      rw [getElem?_overwrite_eq room, if_pos (by omega), Nat.sub_add_comm inside.1]
      exact next
    · have intact : Intact locals index types.length k := by
        refine intact_of_outside room inside ?_ hk
        rintro rfl
        cases hs
      rw [getElem?_of_intact room intact] at hk
      rw [getElem?_of_intact room ((intact_pair h size hk hs).1 intact)]
      exact next_of_paired h hk hs
  · intro k s hk hs
    rw [Array.getElem?_toList] at hk
    by_cases inside : index ≤ k ∧ k < index + types.length
    · rw [getElem?_overwrite_eq room, if_pos inside] at hk
      obtain ⟨j, t, hj, ht, hts⟩ := written.preceded _ s hk hs
      have hlt := (List.getElem?_eq_some_iff.1 ht).1
      refine ⟨index + j, t, by omega, ?_, hts⟩
      rw [Array.getElem?_toList, getElem?_overwrite_eq room, if_pos (by omega),
        Nat.add_sub_cancel_left]
      exact ht
    · have intact : Intact locals index types.length k := by
        refine intact_of_outside room inside ?_ hk
        rintro rfl
        cases hs
      rw [getElem?_of_intact room intact, ← Array.getElem?_toList] at hk
      obtain ⟨j, t, rfl, ht, hts⟩ := h.preceded k s hk hs
      rw [Array.getElem?_toList] at ht
      refine ⟨j, t, rfl, ?_, hts⟩
      rw [Array.getElem?_toList, getElem?_of_intact room ((intact_pair h size ht hts).2 intact)]
      exact ht

/-- Whole longs and doubles only, no more operands than there may be, and in every slot a type that
a slot can have. -/
structure WellFormed (f : Frame) : Prop where
  regular : f.Regular
  fits : f.stack.depth ≤ f.maxStack
  locals_paired : Paired f.locals.toList
  operands_paired : Paired f.operands
  actual : ∀ t, f.Holds t → t.isActual

/-- No value reaches beyond the locals in use, because nothing is there. -/
theorem WellFormed.paired_usedLocals {f : Frame} (h : f.WellFormed) : Paired f.usedLocals := by
  have all : f.locals.toList = f.usedLocals ++ f.locals.toList.drop f.used := by
    rw [usedLocals, Array.toList_extract, List.extract_eq_take_drop, Nat.sub_zero,
      List.drop_zero, List.take_append_drop]
  refine (all ▸ h.locals_paired).of_append (.of_whole fun t ht => ?_)
  obtain ⟨k, hk⟩ := List.mem_iff_getElem?.1 ht
  rw [List.getElem?_drop, Array.getElem?_toList] at hk
  rw [h.regular.unused _ t (Nat.le_add_right _ _) hk]
  exact ⟨rfl, rfl⟩

/-- Whole values give way to whole values. -/
theorem WellFormed.moves {f g : Frame} {popped pushed : List SlotType} (h : f.WellFormed)
    (m : f.Moves popped pushed g) (off : Paired popped.reverse) (on : Paired pushed.reverse)
    (actual : ∀ t ∈ pushed, t.isActual) : g.WellFormed where
  regular := m.regular h.regular
  fits := m.maxStack_eq ▸ m.fits h.fits
  locals_paired := m.locals_eq ▸ h.locals_paired
  operands_paired := by
    obtain ⟨below, hf, hg⟩ := m.stack
    have all := h.operands_paired
    rw [operands, hf, List.reverse_append] at all
    rw [operands, hg, List.reverse_append]
    exact (all.of_append off).append on
  actual := by
    intro t held
    rcases m.holds held with ht | ht
    · exact actual t ht
    · exact h.actual t ht

end Frame

namespace StackMap.Surroundings
variable {s : Surroundings} {t : SlotType}

/-- A type that a slot of the method can have: what is not initialized was allocated somewhere. -/
structure Knows (s : Surroundings) (t : SlotType) : Prop where
  actual : t.isActual
  allocated : ∀ n, t = .uninitialized n → ∃ index, s.listing.allocation? n = some index

/-- A frame of the method: it is well formed, has the sizes that the method declares, and holds no
object that nothing allocates. -/
structure Represents (s : Surroundings) (f : Frame) : Prop where
  wellFormed : f.WellFormed
  maxLocals_eq : f.maxLocals = s.maxLocals
  maxStack_eq : f.maxStack = s.maxStack
  allocated : ∀ n, f.Holds (.uninitialized n) → ∃ index, s.listing.allocation? n = some index

theorem Knows.of_initialized (actual : t.isActual) (initialized : t.isUninitialized = false) :
    s.Knows t := by
  refine ⟨actual, ?_⟩
  rintro n rfl
  cases initialized

theorem Knows.reference (name : String) : s.Knows (.reference name) := .of_initialized rfl rfl

theorem Knows.slots (h : s.Knows t) : ∀ u ∈ t.slots, s.Knows u := by
  intro u hu
  rcases List.mem_cons.1 hu with rfl | hu
  · exact h
  · cases t <;> simp [SlotType.second?] at hu <;> subst hu <;> exact .of_initialized rfl rfl

namespace Represents
variable {f g : Frame} {r : Resolver}

theorem regular (h : s.Represents f) : f.Regular := h.wellFormed.regular

theorem knows (h : s.Represents f) (held : f.Holds t) : s.Knows t :=
  ⟨h.wellFormed.actual t held, fun n he => h.allocated n (he ▸ held)⟩

/-- Of the frame itself only its shape has to be shown, if it knows all its slots. -/
private theorem of_knows (regular : f.Regular) (fits : f.stack.depth ≤ f.maxStack)
    (locals : Paired f.locals.toList) (operands : Paired f.operands)
    (maxLocals : f.maxLocals = s.maxLocals) (maxStack : f.maxStack = s.maxStack)
    (knows : ∀ t, f.Holds t → s.Knows t) : s.Represents f where
  wellFormed := ⟨regular, fits, locals, operands, fun t held => (knows t held).actual⟩
  maxLocals_eq := maxLocals
  maxStack_eq := maxStack
  allocated := fun n held => (knows _ held).allocated n rfl

theorem moves {popped pushed : List SlotType} (h : s.Represents f) (m : f.Moves popped pushed g)
    (off : Paired popped.reverse) (on : Paired pushed.reverse) (knows : ∀ t ∈ pushed, s.Knows t) :
    s.Represents g where
  wellFormed := h.wellFormed.moves m off on fun t ht => (knows t ht).actual
  maxLocals_eq := m.maxLocals_eq.trans h.maxLocals_eq
  maxStack_eq := m.maxStack_eq.trans h.maxStack_eq
  allocated := by
    intro n held
    rcases m.holds held with ht | ht
    · exact (knows _ ht).allocated n rfl
    · exact h.allocated n ht

theorem store {index : Nat} {type : SlotType} (h : s.Represents f) (whole : type.isSecond = false)
    (known : s.Knows type) (stored : (f.store index type).run r = .ok g) : s.Represents g := by
  have regular := h.regular.store stored
  obtain ⟨room, rfl⟩ := Frame.store_ok stored
  apply of_knows
  · exact regular
  · exact h.wellFormed.fits
  · apply Frame.paired_overwrite h.wellFormed.locals_paired (.slots whole) (List.cons_ne_nil _ _)
    rwa [h.regular.size_eq]
  · exact h.wellFormed.operands_paired
  · exact h.maxLocals_eq
  · exact h.maxStack_eq
  · intro t held
    rcases held with held | held
    · rcases Frame.mem_overwrite held with held | held | rfl
      · exact h.knows (.inl held)
      · exact known.slots t held
      · exact .of_initialized rfl rfl
    · exact h.knows (.inr held)

/-- An object takes the place of what was not initialized. -/
theorem replaceAll {old : SlotType} {name : String} (h : s.Represents f)
    (uninitialized : old.isUninitialized) : s.Represents (f.replaceAll old (.reference name)) := by
  apply of_knows
  · apply h.regular.replaceAll
    rintro rfl
    cases uninitialized
  · exact h.wellFormed.fits
  · rw [Frame.replaceAll, Array.toList_map]
    exact h.wellFormed.locals_paired.replace uninitialized
  · change Paired (f.stack.slots.map _).reverse
    rw [← List.map_reverse]
    exact h.wellFormed.operands_paired.replace uninitialized
  · exact h.maxLocals_eq
  · exact h.maxStack_eq
  · intro t held
    rcases Frame.holds_replaceAll held with rfl | ⟨held, _⟩
    · exact .reference name
    · exact h.knows held

theorem agrees (h : s.Represents g) (same : f.Agrees g) (maxStack : f.maxStack = g.maxStack) :
    s.Represents f := by
  apply of_knows
  · exact same.regular h.regular
  · rw [same.stack_eq, maxStack]
    exact h.wellFormed.fits
  · rw [same.locals_eq]
    exact h.wellFormed.locals_paired
  · rw [Frame.operands, same.stack_eq]
    exact h.wellFormed.operands_paired
  · exact same.maxLocals_eq.trans h.maxLocals_eq
  · exact maxStack.trans h.maxStack_eq
  · intro t held
    exact h.knows (same.holds_iff.1 held)

/-- A frame whose locals were filled up, with the given ones in use. -/
theorem padded {locals : List SlotType} (filled : f.locals = Frame.padded f.maxLocals locals)
    (used : f.used = locals.length) (room : locals.length ≤ f.maxLocals)
    (fits : f.stack.depth ≤ f.maxStack) (paired : Paired locals) (operands : Paired f.operands)
    (maxLocals : f.maxLocals = s.maxLocals) (maxStack : f.maxStack = s.maxStack)
    (knows : ∀ t ∈ locals, s.Knows t) (above : ∀ t ∈ f.operands, s.Knows t) :
    s.Represents f := by
  have all : f.locals.toList = locals ++ List.replicate (f.maxLocals - locals.length) .top := by
    rw [filled, Frame.padded, List.take_of_length_le room]
    simp
  apply of_knows
  · exact (Frame.padded_regular filled used room).1
  · exact fits
  · rw [all]
    apply paired.append
    apply Paired.of_whole
    intro t ht
    rw [List.eq_of_mem_replicate ht]
    exact ⟨rfl, rfl⟩
  · exact operands
  · exact maxLocals
  · exact maxStack
  · intro t held
    rcases held with held | held
    · rw [← Array.mem_toList_iff, all] at held
      rcases List.mem_append.1 held with held | held
      · exact knows t held
      · rw [List.eq_of_mem_replicate held]
        exact .of_initialized rfl rfl
    · exact above t (List.mem_reverse.2 held)

end Represents

/-- A method begins with a frame of its own, whatever its instructions are. -/
theorem represents_entry {m : Method} {name : String} {result : SlotType} {f : Frame}
    (h : Frame.entry m (.reference name) s.maxLocals s.maxStack = .ok (f, result)) :
    s.Represents f := by
  obtain ⟨type, room, rfl⟩ := Frame.entry_shape h
  have receiver : ∀ t ∈ if m.isStatic then []
      else if m.isConstructor && (SlotType.reference name).name? ≠ some ClassName.object then
        [.uninitializedThis]
      else [.reference name], t.IsWhole ∧ s.Knows t := by
    intro t ht
    split at ht
    · cases ht
    · split at ht <;> rw [List.mem_singleton.1 ht]
      · refine ⟨⟨rfl, rfl⟩, rfl, ?_⟩
        intro n he
        cases he
      · exact ⟨⟨rfl, rfl⟩, .reference name⟩
  have parameter (p : FieldType) : (SlotType.ofFieldType p).isSecond = false ∧
      s.Knows (.ofFieldType p) := by
    cases p with
    | primitive kind => cases kind <;> exact ⟨rfl, .of_initialized rfl rfl⟩
    | object name => exact ⟨rfl, .reference _⟩
    | array component => exact ⟨rfl, .reference _⟩
  refine Represents.padded rfl rfl room (Nat.zero_le _) ?_ .nil rfl rfl ?_ nofun
  · apply (Paired.of_whole fun t ht => (receiver t ht).1).append
    have values := @Paired.flatMap_slots (type.parameters.map SlotType.ofFieldType)
    rw [List.flatMap_map] at values
    apply values
    intro t ht
    obtain ⟨p, _, rfl⟩ := List.mem_map.1 ht
    exact (parameter p).1
  · intro t ht
    rcases List.mem_append.1 ht with ht | ht
    · exact (receiver t ht).2
    · obtain ⟨p, _, ht⟩ := List.mem_flatMap.1 ht
      exact (parameter p).2.slots t ht

end StackMap.Surroundings
end ClassVerifier
