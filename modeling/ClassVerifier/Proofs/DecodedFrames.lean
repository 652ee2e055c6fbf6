import ClassVerifier.Proofs.Faults
import ClassVerifier.Proofs.FrameShape
import ClassVerifier.Proofs.RecordedFrames

/-! The frames that are read from a payload. Each of them is a frame of the method, because the one
before it was; for the same reason no reading of them breaks down, and whatever is wrong with the
payload is reported as a defect of it. -/
namespace ClassVerifier.StackMap
open Surroundings
variable {s : Surroundings} {f previous : Frame} {bytes rest : List UInt8} {r : Resolver}

private theorem slotType_ok {t : SlotType} (h : slotType s bytes = .ok (t, rest)) :
    s.Knows t ∧ t.isSecond = false := by
  obtain ⟨code, middle, _, h⟩ := Reader.bind_eq_ok.1 h
  split at h
  case h_8 =>
    obtain ⟨index, _, _, h⟩ := Reader.bind_eq_ok.1 h
    cases named : s.pool.className index with
    | ok name =>
      rw [named] at h
      cases h
      exact ⟨.reference _, rfl⟩
    | error cause =>
      rw [named] at h
      cases h
  case h_9 =>
    obtain ⟨offset, _, _, h⟩ := Reader.bind_eq_ok.1 h
    cases found : s.listing.allocation? offset.toNat with
    | some index =>
      rw [found] at h
      cases h
      refine ⟨⟨rfl, ?_⟩, rfl⟩
      rintro n ⟨rfl⟩
      exact ⟨index, found⟩
    | none =>
      rw [found] at h
      cases h
  case h_10 => cases h
  case h_7 =>
    cases h
    exact ⟨⟨rfl, nofun⟩, rfl⟩
  all_goals
    cases h
    exact ⟨.of_initialized rfl rfl, rfl⟩

/-- The slots that are read are those of whole values. -/
private theorem slots_ok {excess : Defect} {n room : Nat} {before after : List SlotType}
    (h : slots s excess n room before bytes = .ok (after, rest)) :
    ∃ types : List SlotType, (∀ t ∈ types, s.Knows t ∧ t.isSecond = false) ∧
      after.reverse = before.reverse ++ types.flatMap SlotType.slots := by
  induction n generalizing room before bytes with
  | zero =>
    obtain ⟨rfl, _⟩ := Reader.pure_eq_ok.1 h
    exact ⟨[], nofun, by simp⟩
  | succ n ih =>
    obtain ⟨type, middle, ht, h⟩ := Reader.bind_eq_ok.1 h
    split at h
    · cases h
    · obtain ⟨types, known, he⟩ := ih h
      refine ⟨type :: types, List.forall_mem_cons.2 ⟨slotType_ok ht, known⟩, ?_⟩
      rw [he, List.reverse_append, List.reverse_reverse, List.append_assoc, List.flatMap_cons]

private theorem slots_nil_ok {excess : Defect} {n room : Nat} {after : List SlotType}
    (h : slots s excess n room [] bytes = .ok (after, rest)) :
    Paired after.reverse ∧ ∀ t ∈ after, s.Knows t := by
  obtain ⟨types, known, he⟩ := slots_ok h
  rw [List.reverse_nil, List.nil_append] at he
  refine ⟨he ▸ Paired.flatMap_slots fun t ht => (known t ht).2, fun t ht => ?_⟩
  rw [← List.mem_reverse, he] at ht
  obtain ⟨type, hm, ht⟩ := List.mem_flatMap.1 ht
  exact (known type hm).1.slots t ht

/-- Removing values from whole ones leaves whole ones; a second slot always has its first one. -/
theorem chop_paired {n : Nat} {locals : List SlotType} (h : Paired locals.reverse) :
    chop n locals = .ok none ∨ ∃ kept, chop n locals = .ok (some kept) ∧ Paired kept.reverse := by
  induction n generalizing locals with
  | zero => exact .inr ⟨locals, rfl, h⟩
  | succ n ih =>
    cases locals with
    | nil => exact .inl rfl
    | cons last locals =>
      rw [List.reverse_cons] at h
      unfold chop
      by_cases second : last.isSecond
      · obtain ⟨below, first, he, hs⟩ := h.concat_second second
        have whole : Paired [first, last] := by
          have pair := Paired.slots (t := first) (by cases first <;> cases hs <;> rfl)
          rwa [SlotType.slots, hs] at pair
        rw [he, List.append_assoc] at h
        obtain rfl : locals = first :: below.reverse := by
          rw [← List.reverse_reverse locals, he]
          simp
        rw [if_pos second]
        exact ih (by simpa using h.of_append whole)
      · rw [if_neg second]
        exact ih (h.of_append (.singleton (h.concat_not_second (by simpa using second))))

private theorem chop_known {n : Nat} {locals kept : List SlotType} (paired : Paired locals)
    (known : ∀ t ∈ locals, s.Knows t) (h : chop n locals.reverse = .ok (some kept)) :
    Paired kept.reverse ∧ ∀ t ∈ kept.reverse, s.Knows t := by
  rw [← List.reverse_reverse locals] at paired
  rcases chop_paired (n := n) paired with none | ⟨_, some, rest⟩
  · cases none.symm.trans h
  · cases some.symm.trans h
    refine ⟨rest, fun t ht => known t (List.mem_reverse.1 ?_)⟩
    exact (chop_suffix h).mem (List.mem_reverse.1 ht)

private theorem stackSlots_ok {n : Nat} {stack : List SlotType}
    (h : stackSlots s n bytes = .ok (stack, rest)) :
    stack.length ≤ s.maxStack ∧ Paired stack.reverse ∧ ∀ t ∈ stack, s.Knows t := by
  have room := slots_length h
  rw [List.length_nil, Nat.zero_add] at room
  exact ⟨room, slots_nil_ok h⟩

/-- The locals and the stack that are read are whole values that the method can have. -/
theorem contents_represents {code : UInt8} {locals stack : List SlotType} {pending : Bool}
    (hp : s.Represents previous)
    (h : contents s previous code bytes = .ok ((locals, stack, pending), rest)) :
    (Paired locals ∧ ∀ t ∈ locals, s.Knows t) ∧
      stack.length ≤ s.maxStack ∧ Paired stack.reverse ∧ ∀ t ∈ stack, s.Knows t := by
  have used : Paired previous.usedLocals ∧ ∀ t ∈ previous.usedLocals, s.Knows t :=
    ⟨hp.wellFormed.paired_usedLocals, fun t ht => hp.knows (.inl (Frame.mem_locals_of_used ht))⟩
  have empty : ([] : List SlotType).length ≤ s.maxStack ∧ Paired ([] : List SlotType).reverse ∧
      ∀ t ∈ ([] : List SlotType), s.Knows t := ⟨Nat.zero_le _, .nil, nofun⟩
  unfold contents at h
  dsimp only at h
  split at h
  · obtain ⟨he, _⟩ := Reader.pure_eq_ok.1 h
    cases he
    exact ⟨used, empty⟩
  · split at h
    · obtain ⟨stack', _, hs, h⟩ := Reader.bind_eq_ok.1 h
      obtain ⟨he, _⟩ := Reader.pure_eq_ok.1 h
      cases he
      exact ⟨used, stackSlots_ok hs⟩
    · split at h
      · rcases chopped : chop (251 - code.toNat) previous.usedLocals.reverse with _ | _ | kept
        · rw [chopped] at h
          cases h
        · rw [chopped] at h
          cases h
        · rw [chopped] at h
          obtain ⟨he, _⟩ := Reader.pure_eq_ok.1 h
          cases he
          exact ⟨chop_known used.1 used.2 chopped, empty⟩
      · split at h
        · obtain ⟨added, _, ha, h⟩ := Reader.bind_eq_ok.1 h
          obtain ⟨he, _⟩ := Reader.pure_eq_ok.1 h
          cases he
          obtain ⟨paired, known⟩ := slots_nil_ok ha
          refine ⟨⟨used.1.append paired, fun t ht => ?_⟩, empty⟩
          rcases List.mem_append.1 ht with ht | ht
          · exact used.2 t ht
          · exact known t (List.mem_reverse.1 ht)
        · obtain ⟨count, _, _, h⟩ := Reader.bind_eq_ok.1 h
          obtain ⟨locals', _, hl, h⟩ := Reader.bind_eq_ok.1 h
          obtain ⟨depth, _, _, h⟩ := Reader.bind_eq_ok.1 h
          obtain ⟨stack', _, hs, h⟩ := Reader.bind_eq_ok.1 h
          obtain ⟨he, _⟩ := Reader.pure_eq_ok.1 h
          cases he
          obtain ⟨paired, known⟩ := slots_nil_ok hl
          exact ⟨⟨paired, fun t ht => known t (List.mem_reverse.1 ht)⟩, stackSlots_ok hs⟩

theorem frame_represents {first : Bool} (admitted : s.Admits previous)
    (hp : s.Represents previous) (h : frame s previous first bytes = .ok (f, rest)) :
    s.Represents f := by
  obtain ⟨code, _, _, h⟩ := Reader.bind_eq_ok.1 h
  obtain ⟨delta, _, _, h⟩ := Reader.bind_eq_ok.1 h
  dsimp only at h
  generalize (if first then delta else previous.offset + delta + 1) = offset at h
  split at h
  · cases h
  · obtain ⟨⟨locals, stack, pending⟩, _, hc, h⟩ := Reader.bind_eq_ok.1 h
    obtain ⟨rfl, _⟩ := Reader.pure_eq_ok.1 h
    obtain ⟨room, _⟩ := contents_ok admitted hc
    obtain ⟨⟨paired, known⟩, fits, operands, above⟩ := contents_represents hp hc
    exact .padded rfl rfl room fits paired operands rfl rfl known
      fun t ht => above t (List.mem_reverse.1 ht)

private theorem previous_represents {initial : Frame} {before : Array Frame}
    (hi : s.Admits initial ∧ s.Represents initial)
    (hb : ∀ f ∈ before, s.Admits f ∧ s.Represents f) :
    s.Admits (before.back?.getD initial) ∧ s.Represents (before.back?.getD initial) := by
  cases hback : before.back? with
  | none => exact hi
  | some last => exact hb last (Array.mem_of_back? hback)

private theorem forall_mem_push {P : Frame → Prop} {before : Array Frame} (hb : ∀ f ∈ before, P f)
    (hf : P f) : ∀ g ∈ before.push f, P g := by
  intro g hg
  rcases Array.mem_push.1 hg with hg | rfl
  · exact hb g hg
  · exact hf

private theorem framesFrom_represents' {initial : Frame}
    (hi : s.Admits initial ∧ s.Represents initial) {n : Nat} {before all : Array Frame}
    (hb : ∀ f ∈ before, s.Admits f ∧ s.Represents f)
    (h : framesFrom s initial n before bytes = .ok (all, rest)) : ∀ f ∈ all, s.Represents f := by
  induction n generalizing before bytes with
  | zero =>
    cases h
    exact fun f hf => (hb f hf).2
  | succ n ih =>
    unfold framesFrom at h
    split at h
    · next f middle hf =>
      obtain ⟨admitted, represented⟩ := previous_represents hi hb
      refine ih (forall_mem_push hb ?_) h
      exact ⟨(frame_ok admitted hf).1, frame_represents admitted represented hf⟩
    · cases h

/-- Every frame that has been read is a frame of the method, whether or not more can be read. -/
theorem framesFrom_represents {initial : Frame} (admitted : s.Admits initial)
    (hi : s.Represents initial) {n : Nat} {all : Array Frame}
    (h : framesFrom s initial n #[] bytes = .ok (all, rest)) : ∀ f ∈ all, s.Represents f :=
  framesFrom_represents' ⟨admitted, hi⟩ (fun _ hf => absurd hf (Array.not_mem_empty _)) h

theorem ofPayload_represents {initial : Frame} {payload : Option (List UInt8)} {m : StackMap}
    (admitted : s.Admits initial) (hi : s.Represents initial)
    (h : ofPayload s initial payload = .ok m) : ∀ f ∈ m.frames.toList, s.Represents f := by
  intro f hf
  rw [Array.mem_toList_iff] at hf
  unfold ofPayload at h
  split at h
  · cases h
    exact absurd hf (Array.not_mem_empty _)
  · split at h
    · next all ha =>
      cases h
      obtain ⟨count, middle, _, hframes⟩ := Reader.bind_eq_ok.1 ha
      exact framesFrom_represents admitted hi hframes f hf
    · cases h
    · cases h

/-- Whatever goes wrong is a defect of the payload. -/
def Faithful {α : Type} (x : FrameReader α) : Prop :=
  ∀ bytes fault, x bytes = .error fault → ∃ d : Defect, fault = d.fault

namespace Faithful
variable {α β : Type}

theorem pure (a : α) : Faithful (Pure.pure a) := nofun

theorem fail (d : Defect) : Faithful (Reader.fail d.fault : FrameReader α) := by
  rintro bytes _ ⟨rfl⟩
  exact ⟨d, rfl⟩

theorem bind {x : FrameReader α} {f : α → FrameReader β} (hx : Faithful x)
    (hf : ∀ a, Faithful (f a)) : Faithful (x >>= f) := by
  intro bytes fault h
  simp only [Bind.bind, Reader.bind] at h
  split at h
  · exact hf _ _ fault h
  · next other ho =>
    cases h
    exact hx bytes _ ho

theorem ite {p : Prop} [Decidable p] {x y : FrameReader α} (hx : Faithful x) (hy : Faithful y) :
    Faithful (if p then x else y) := by
  split
  · exact hx
  · exact hy

theorem byte : Faithful (Reader.byte Defect.pastEnd.fault) := by
  intro bytes fault h
  cases bytes with
  | nil =>
    cases h
    exact ⟨_, rfl⟩
  | cons => cases h

theorem word : Faithful (Reader.word Defect.pastEnd.fault) := by
  intro bytes fault h
  unfold Reader.word at h
  split at h
  · cases h
  · cases h
    exact ⟨_, rfl⟩

end Faithful

private theorem faithful_slotType (s : Surroundings) : Faithful (slotType s) := by
  refine .bind .byte fun code => ?_
  split
  case h_8 =>
    refine .bind .word fun index => ?_
    cases s.pool.className index with
    | ok name => exact .pure _
    | error cause => exact .fail _
  case h_9 =>
    refine .bind .word fun offset => ?_
    cases s.listing.allocation? offset.toNat with
    | some index => exact .pure _
    | none => exact .fail _
  case h_10 => exact .fail _
  all_goals exact .pure _

private theorem faithful_slots (excess : Defect) (n room : Nat) (before : List SlotType) :
    Faithful (slots s excess n room before) := by
  induction n generalizing room before with
  | zero => exact .pure _
  | succ n ih => exact .bind (faithful_slotType s) fun type => .ite (.fail _) (ih _ _)

private theorem faithful_contents (hp : previous.WellFormed) (code : UInt8) :
    Faithful (contents s previous code) := by
  refine .ite (.pure _) (.ite ?_ (.ite ?_ (.ite ?_ ?_)))
  · exact .bind (faithful_slots _ _ _ _) fun _ => .pure _
  · have whole : Paired previous.usedLocals.reverse.reverse := by
      rw [List.reverse_reverse]
      exact hp.paired_usedLocals
    dsimp only
    rcases chop_paired (n := 251 - code.toNat) whole with hk | ⟨kept, hk, _⟩
    · rw [hk]
      exact .fail _
    · rw [hk]
      exact .pure _
  · exact .bind (faithful_slots _ _ _ _) fun _ => .pure _
  · refine .bind .word fun count => .bind (faithful_slots _ _ _ _) fun locals => ?_
    exact .bind .word fun depth => .bind (faithful_slots _ _ _ _) fun stack => .pure _

private theorem faithful_frame (hp : previous.WellFormed) (first : Bool) :
    Faithful (frame s previous first) := by
  refine .bind .byte fun code => .bind ?_ fun delta => .ite (.fail _) ?_
  · refine .ite (.pure _) (.ite (.pure _) (.ite (.fail _) ?_))
    exact .bind .word fun _ => .pure _
  · exact .bind (faithful_contents hp code) fun _ => .pure _

private theorem faithful_framesFrom {initial : Frame}
    (hi : s.Admits initial ∧ s.Represents initial) (n : Nat) {before : Array Frame}
    (hb : ∀ f ∈ before, s.Admits f ∧ s.Represents f) :
    Faithful (framesFrom s initial n before) := by
  induction n generalizing before with
  | zero => exact .pure _
  | succ n ih =>
    intro bytes fault h
    obtain ⟨admitted, represented⟩ := previous_represents hi hb
    unfold framesFrom at h
    split at h
    · next f middle hf =>
      refine ih (forall_mem_push hb ?_) _ fault h
      exact ⟨(frame_ok admitted hf).1, frame_represents admitted represented hf⟩
    · next other ho =>
      cases h
      exact faithful_frame represented.wellFormed _ _ _ ho

theorem ofPayload_faithful {initial : Frame} {payload : Option (List UInt8)} {fault : Fault}
    (admitted : s.Admits initial) (hi : s.Represents initial)
    (h : ofPayload s initial payload = .error fault) : ∃ d : Defect, fault = d.fault := by
  unfold ofPayload at h
  split at h
  · cases h
  · split at h
    · cases h
    · cases h
      exact ⟨_, rfl⟩
    · next other ho =>
      cases h
      refine Faithful.bind .word (fun count => ?_) _ _ ho
      exact faithful_framesFrom ⟨admitted, hi⟩ _ fun _ hf => absurd hf (Array.not_mem_empty _)

end ClassVerifier.StackMap
