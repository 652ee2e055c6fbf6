import ClassVerifier.Proofs.CodeBytes
import ClassVerifier.Proofs.Steps
import ClassVerifier.Proofs.WholeValues

/-! The instructions that rearrange the top of the stack. Each is one rearrangement of slots,
whatever the slots are, and it is carried out just in case there are enough slots and room for the
result, and it splits no long or double. -/
namespace ClassVerifier

/-- The slots at the very top of a stack, or the ones below them. -/
inductive StackPart where
  | upper | lower

/-- A rearrangement of slots: the `upper` ones at the top and the `lower` ones below them give way
to these parts, the top one first. -/
structure Shuffle where
  upper : Nat
  lower : Nat
  parts : List StackPart

namespace Shuffle

/-- What takes the place of the two parts; all lists have their top first. -/
def result (s : Shuffle) (upper lower : List SlotType) : List SlotType :=
  s.parts.flatMap fun
    | .upper => upper
    | .lower => lower

def remove (count : Nat) : Shuffle := ⟨count, 0, []⟩

/-- Puts a copy of the top slots below the slots under them. -/
def copy (count under : Nat) : Shuffle := ⟨count, under, [.upper, .lower, .upper]⟩

def exchange : Shuffle := ⟨1, 1, [.lower, .upper]⟩

/-- The rearrangement that an opcode stands for. -/
def ofOpcode? : UInt8 → Option Shuffle
  | 0x57 => some (remove 1)
  | 0x58 => some (remove 2)
  | 0x59 => some (copy 1 0)
  | 0x5a => some (copy 1 1)
  | 0x5b => some (copy 1 2)
  | 0x5c => some (copy 2 0)
  | 0x5d => some (copy 2 1)
  | 0x5e => some (copy 2 2)
  | 0x5f => some exchange
  | _ => none

end Shuffle

/-- The boundary below so many slots, counted from the top, runs between the two slots of a long or
double. -/
def Splits (slots : List SlotType) (count : Nat) : Prop :=
  ∃ first second, (slots.drop count).head? = some first ∧
    (slots.take count).getLast? = some second ∧ first.second? = some second

/-- The top of a stack has whole values only if the boundary below it splits none. -/
private theorem paired_iff_not_splits {upper below : List SlotType}
    (h : Paired (upper ++ below).reverse) :
    Paired upper.reverse ↔ ¬Splits (upper ++ below) upper.length := by
  rw [List.reverse_append] at h
  rw [h.end_iff, List.getLast?_reverse, List.head?_reverse, Splits, List.take_left, List.drop_left]
  constructor
  · rintro cut ⟨first, second, hf, hs, pair⟩
    exact cut first second hf hs pair
  · intro cut first second hf hs pair
    exact cut ⟨first, second, hf, hs, pair⟩

namespace Shuffle
variable {s : Shuffle} {upper lower below : List SlotType} {f g : Frame} {r : Resolver}

/-- What the rearrangement of a frame's stack demands, and the frame that comes of it. -/
structure Rearranges (s : Shuffle) (f : Frame) (upper lower below : List SlotType) (g : Frame) :
    Prop where
  stack : f.stack.slots = upper ++ (lower ++ below)
  enough : upper.length = s.upper ∧ lower.length = s.lower
  upper_whole : ¬Splits f.stack.slots s.upper
  lower_whole : ¬Splits f.stack.slots (s.upper + s.lower)
  room : (s.result upper lower ++ below).length ≤ f.maxStack
  same : g = { f with stack := .ofSlots (s.result upper lower ++ below) }

/-- The two parts are taken off one after the other, and the result is put on. -/
def Runs (s : Shuffle) (r : Resolver) (f : Frame) (upper lower : List SlotType) (g : Frame) :
    Prop :=
  ∃ middle rest, (f.popSlots s.upper).run r = .ok (upper, middle) ∧
    (middle.popSlots s.lower).run r = .ok (lower, rest) ∧
    rest.pushAll (s.result upper lower).reverse = .ok g

/-- Whole values make up whole values. -/
private theorem result_whole (hu : Paired upper.reverse ∧ ∀ t ∈ upper, t.isActual)
    (hl : Paired lower.reverse ∧ ∀ t ∈ lower, t.isActual) :
    Paired (s.result upper lower).reverse ∧ ∀ t ∈ s.result upper lower, t.isActual := by
  have append {a b : List SlotType} (ha : Paired a.reverse ∧ ∀ t ∈ a, t.isActual)
      (hb : Paired b.reverse ∧ ∀ t ∈ b, t.isActual) :
      Paired (a ++ b).reverse ∧ ∀ t ∈ a ++ b, t.isActual := by
    rw [List.reverse_append]
    exact ⟨hb.1.append ha.1, List.forall_mem_append.2 ⟨ha.2, hb.2⟩⟩
  unfold result
  induction s.parts with
  | nil => exact ⟨.nil, List.forall_mem_nil _⟩
  | cons part parts ih =>
    rw [List.flatMap_cons]
    cases part with
    | upper => exact append hu ih
    | lower => exact append hl ih

private theorem Runs.wellFormed (h : f.WellFormed) (runs : s.Runs r f upper lower g) :
    g.WellFormed := by
  obtain ⟨middle, rest, hu, hl, hp⟩ := runs
  have hm := h.popSlots hu
  obtain ⟨_, upperPaired, _⟩ := (Frame.popSlots_ok h).1 hu
  obtain ⟨_, lowerPaired, _⟩ := (Frame.popSlots_ok hm).1 hl
  have upperActual (t : SlotType) (ht : t ∈ upper) : t.isActual :=
    h.actual_operand ((Frame.popSlots_moves hu).mem_popped ht)
  have lowerActual (t : SlotType) (ht : t ∈ lower) : t.isActual :=
    hm.actual_operand ((Frame.popSlots_moves hl).mem_popped ht)
  obtain ⟨paired, actual⟩ :=
    result_whole (s := s) ⟨upperPaired, upperActual⟩ ⟨lowerPaired, lowerActual⟩
  have pushMoves := Frame.pushAll_moves hp
  rw [List.reverse_reverse] at pushMoves
  exact (hm.popSlots hl).moves pushMoves .nil paired actual

/-- Whole values are on both sides of both boundaries, just in case the boundaries split none. -/
private theorem paired_iff (h : Paired (upper ++ (lower ++ below)).reverse) :
    Paired upper.reverse ∧ Paired lower.reverse ↔
      ¬Splits (upper ++ (lower ++ below)) upper.length ∧
        ¬Splits (upper ++ (lower ++ below)) (upper.length + lower.length) := by
  have both : Paired (upper ++ lower).reverse ↔
      ¬Splits (upper ++ (lower ++ below)) (upper.length + lower.length) := by
    rw [← List.append_assoc] at h ⊢
    rw [← List.length_append]
    exact paired_iff_not_splits h
  rw [← paired_iff_not_splits h, ← both, List.reverse_append]
  constructor
  · rintro ⟨hu, hl⟩
    exact ⟨hu, hl.append hu⟩
  · rintro ⟨hu, all⟩
    exact ⟨hu, all.of_append hu⟩

private theorem runs_iff (h : f.WellFormed) (small : s.upper ≤ 2 ∧ s.lower ≤ 2) :
    s.Runs r f upper lower g ↔ ∃ below, s.Rearranges f upper lower below g := by
  have slots := h.operands_paired
  rw [Frame.operands] at slots
  have fits {below : List SlotType} (hs : f.stack.slots = upper ++ (lower ++ below)) :
      below.length ≤ f.maxStack := by
    have all := h.fits
    rw [f.stack.depth_eq, hs, List.length_append, List.length_append] at all
    omega
  constructor
  · rintro ⟨middle, rest, hu, hl, hp⟩
    obtain ⟨upperLength, upperPaired, between, hs, rfl⟩ := (Frame.popSlots_ok h).1 hu
    have hm := h.popSlots hu
    obtain ⟨lowerLength, lowerPaired, below, hb, rfl⟩ := (Frame.popSlots_ok hm).1 hl
    obtain rfl : between = lower ++ below := hb
    obtain ⟨room, rfl⟩ := (Frame.pushAll_ok (fits hs)).1 hp
    have enough : upper.length = s.upper ∧ lower.length = s.lower := by omega
    have whole := (paired_iff (hs ▸ slots)).1 ⟨upperPaired, lowerPaired⟩
    rw [← hs, enough.1, enough.2] at whole
    rw [List.length_reverse, Nat.add_comm] at room
    refine ⟨below, hs, enough, whole.1, whole.2, ?_, ?_⟩
    · rw [List.length_append]
      exact room
    · rw [List.reverse_reverse]
      rfl
  · rintro ⟨below, hs, enough, upperWhole, lowerWhole, room, rfl⟩
    have whole : Paired upper.reverse ∧ Paired lower.reverse := by
      apply (paired_iff (hs ▸ slots)).2
      rw [← hs, enough.1, enough.2]
      exact ⟨upperWhole, lowerWhole⟩
    have hu : (f.popSlots s.upper).run r =
        .ok (upper, { f with stack := .ofSlots (lower ++ below) }) :=
      (Frame.popSlots_ok h).2 ⟨by omega, whole.1, lower ++ below, hs, rfl⟩
    have hm := h.popSlots hu
    refine ⟨_, { f with stack := .ofSlots below }, hu,
      (Frame.popSlots_ok hm).2 ⟨by omega, whole.2, below, rfl, rfl⟩, ?_⟩
    refine (Frame.pushAll_ok (fits hs)).2 ⟨?_, ?_⟩
    · rw [List.length_append] at room
      rw [List.length_reverse, Nat.add_comm]
      exact room
    · rw [List.reverse_reverse]
      rfl

end Shuffle

namespace Body
variable {r : Resolver} {m : Body} {f g : Frame} {flow : Flow}

private theorem discard_ok {count : Nat} : (m.execute (.discard count) f).run r = .ok (flow, g) ↔
    flow = .next ∧ ∃ upper lower, (Shuffle.remove count).Runs r f upper lower g := by
  simp only [execute_ok, effect, Check.bind_ok, Check.pure_ok, Prod.mk.injEq]
  constructor
  · rintro ⟨⟨⟨upper, _⟩, popped, rfl, rfl⟩, _⟩
    exact ⟨rfl, upper, [], _, _, popped, rfl, rfl⟩
  · rintro ⟨rfl, upper, lower, middle, rest, popped, none, pushed⟩
    cases none
    cases pushed
    exact ⟨⟨_, popped, rfl, rfl⟩, List.forall_mem_nil _⟩

private theorem duplicate_ok {count under : Nat} :
    (m.execute (.duplicate count under) f).run r = .ok (flow, g) ↔
      flow = .next ∧ ∃ upper lower, (Shuffle.copy count under).Runs r f upper lower g := by
  have result (upper lower : List SlotType) :
      (Shuffle.copy count under).result upper lower = upper ++ lower ++ upper := by
    simp [Shuffle.result, Shuffle.copy]
  simp only [execute_ok, effect, duplicate, Check.bind_ok, Check.pure_ok, Check.lift_ok,
    Prod.mk.injEq, Shuffle.Runs, result]
  constructor
  · rintro ⟨⟨_, ⟨⟨upper, middle⟩, hu, ⟨lower, rest⟩, hl, pushed⟩, rfl, rfl⟩, _⟩
    exact ⟨rfl, upper, lower, middle, rest, hu, hl, pushed⟩
  · rintro ⟨rfl, upper, lower, middle, rest, hu, hl, pushed⟩
    exact ⟨⟨_, ⟨_, hu, _, hl, pushed⟩, rfl, rfl⟩, List.forall_mem_nil _⟩

private theorem swap_ok : (m.execute .swap f).run r = .ok (flow, g) ↔
    flow = .next ∧ ∃ upper lower, Shuffle.exchange.Runs r f upper lower g := by
  have one {f g : Frame} {slots : List SlotType} (hp : (f.popSlots 1).run r = .ok (slots, g)) :
      slots.reverse = slots := by
    obtain ⟨⟨only, _⟩, _, he⟩ := Check.bind_ok.1 hp
    cases Check.pure_ok.1 he
    rfl
  have result {upper lower : List SlotType} (hu : upper.reverse = upper)
      (hl : lower.reverse = lower) :
      (Shuffle.exchange.result upper lower).reverse = upper ++ lower := by
    simp [Shuffle.result, Shuffle.exchange, hu, hl]
  simp only [execute_ok, effect, swap, Check.bind_ok, Check.pure_ok, Check.lift_ok, Prod.mk.injEq]
  constructor
  · rintro ⟨⟨_, ⟨⟨upper, middle⟩, hu, ⟨lower, rest⟩, hl, pushed⟩, rfl, rfl⟩, _⟩
    exact ⟨rfl, upper, lower, middle, rest, hu, hl, result (one hu) (one hl) ▸ pushed⟩
  · rintro ⟨rfl, upper, lower, middle, rest, hu, hl, pushed⟩
    exact ⟨⟨_, ⟨_, hu, _, hl, result (one hu) (one hl) ▸ pushed⟩, rfl, rfl⟩, List.forall_mem_nil _⟩

end Body

/-- Each opcode that stands for a rearrangement has an instruction that takes off the two parts and
puts on the result. -/
private theorem Shuffle.ofOpcode?_runs {op : UInt8} {s : Shuffle} (h : ofOpcode? op = some s) :
    (s.upper ≤ 2 ∧ s.lower ≤ 2) ∧ ∃ i, Instruction.bare? op.toNat = some i ∧
      ∀ {m : Body} {r : Resolver} {f g : Frame} {flow : Flow},
        (m.execute i f).run r = .ok (flow, g) ↔
          flow = .next ∧ ∃ upper lower, s.Runs r f upper lower g := by
  unfold ofOpcode? at h
  split at h
  case h_1 | h_2 =>
    cases h
    exact ⟨by decide, _, rfl, Body.discard_ok⟩
  case h_9 =>
    cases h
    exact ⟨by decide, _, rfl, Body.swap_ok⟩
  case h_10 => cases h
  all_goals
    cases h
    exact ⟨by decide, _, rfl, Body.duplicate_ok⟩

/-- An opcode that rearranges the stack is an instruction by itself, and on every well-formed frame
it succeeds just in case there are enough slots, the two boundaries split no long or double, and
there is room for the result. The frame that comes of it has the rearranged stack and is otherwise
the same, and is well-formed again. -/
theorem Shuffle.rearranges_exact {op : UInt8} {s : Shuffle} (h : ofOpcode? op = some s) {f : Frame}
    (shape : f.WellFormed) : ∃ i,
    (∀ (code : Array UInt8) (b : Nat), code[b]? = some op →
      Instruction.decode? code b = some ⟨b, op, 1, i⟩) ∧
    ∀ (m : Body) (r : Resolver) (g : Frame) (flow : Flow),
      ((m.execute i f).run r = .ok (flow, g) ↔
        flow = .next ∧ ∃ upper lower below, s.Rearranges f upper lower below g) ∧
      ((m.execute i f).run r = .ok (flow, g) → g.WellFormed) := by
  obtain ⟨small, i, bare, runs⟩ := ofOpcode?_runs h
  refine ⟨i, fun code b first => Instruction.decode?_bare first bare, fun m r g flow => ⟨?_, ?_⟩⟩
  · rw [runs]
    refine and_congr_right fun _ => exists_congr fun upper => exists_congr fun lower => ?_
    exact runs_iff shape small
  · intro executed
    obtain ⟨_, upper, lower, ran⟩ := runs.1 executed
    exact ran.wellFormed shape

/-- A long above an integer, with room for another long. -/
def longOverInteger : Frame where
  offset := 0
  used := 0
  maxLocals := 0
  maxStack := 5
  thisPending := false
  locals := #[]
  stack := .ofSlots [.longSecond, .long, .integer]

private theorem longOverInteger_wellFormed : longOverInteger.WellFormed where
  regular :=
    { size_eq := rfl
      used_le := Nat.le_refl 0
      unused := fun k t _ ht => by cases ht }
  fits := by decide
  locals_paired := .nil
  operands_paired := .append (.singleton ⟨rfl, rfl⟩) (Paired.pair_iff.2 (.inr rfl))
  actual := by
    intro t ht
    rcases ht with ht | ht
    · simp [longOverInteger] at ht
    · revert t
      decide

/-- The long is copied below the integer, but its slots are not exchanged. -/
theorem Shuffle.rearranges_exact_longOverInteger : longOverInteger.WellFormed ∧
    (∃ i, Instruction.decode? #[0x5d] 0 = some ⟨0, 0x5d, 1, i⟩ ∧ ∀ (m : Body) (r : Resolver),
      (m.execute i longOverInteger).run r = .ok (.next, { longOverInteger with
        stack := .ofSlots [.longSecond, .long, .integer, .longSecond, .long] })) ∧
    ∃ i, Instruction.decode? #[0x5f] 0 = some ⟨0, 0x5f, 1, i⟩ ∧
      ∀ (m : Body) (r : Resolver) (g : Frame) (flow : Flow),
        (m.execute i longOverInteger).run r ≠ .ok (flow, g) := by
  have copies : ofOpcode? 0x5d = some (copy 2 1) := rfl
  have exchanges : ofOpcode? 0x5f = some exchange := rfl
  refine ⟨longOverInteger_wellFormed, ?_, ?_⟩
  · obtain ⟨i, read, run⟩ := rearranges_exact copies longOverInteger_wellFormed
    have whole : ¬Splits longOverInteger.stack.slots 2 := by
      rintro ⟨first, second, hf, -, pair⟩
      cases hf
      cases pair
    have all : ¬Splits longOverInteger.stack.slots 3 := by
      rintro ⟨first, second, hf, -⟩
      cases hf
    refine ⟨i, read _ 0 rfl, fun m r => (run m r _ _).1.2 ⟨rfl, ?_⟩⟩
    exact ⟨[.longSecond, .long], [.integer], [], rfl, ⟨rfl, rfl⟩, whole, all, by decide, rfl⟩
  · obtain ⟨i, read, run⟩ := rearranges_exact exchanges longOverInteger_wellFormed
    refine ⟨i, read _ 0 rfl, fun m r g flow executed => ?_⟩
    obtain ⟨_, upper, lower, below, rearranged⟩ := (run m r g flow).1.1 executed
    exact rearranged.upper_whole ⟨.long, .longSecond, rfl, rfl, rfl⟩

end ClassVerifier
