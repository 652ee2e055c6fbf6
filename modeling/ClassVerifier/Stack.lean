import ClassVerifier.SlotType

/-! Operand stacks. A stack carries its depth, so that saying whether one more slot fits takes no
walk over the others; its slots determine it. -/
namespace ClassVerifier

/-- The slots of an operand stack, its top first. -/
structure Stack where
  slots : List SlotType
  depth : Nat
  depth_eq : depth = slots.length
  deriving DecidableEq

namespace Stack

def ofSlots (slots : List SlotType) : Stack := ⟨slots, slots.length, rfl⟩

def empty : Stack := ofSlots []

def push (s : Stack) (t : SlotType) : Stack :=
  ⟨t :: s.slots, s.depth + 1, by rw [s.depth_eq, List.length_cons]⟩

/-- The top and what is below it. -/
def pop? : Stack → Option (SlotType × Stack)
  | ⟨[], _, _⟩ => none
  | ⟨t :: rest, depth, h⟩ => some (t, ⟨rest, depth - 1, by rw [h]; rfl⟩)

def map (f : SlotType → SlotType) (s : Stack) : Stack :=
  ⟨s.slots.map f, s.depth, by rw [s.depth_eq, List.length_map]⟩

@[ext] theorem ext {s t : Stack} (h : s.slots = t.slots) : s = t := by
  obtain ⟨slots, _, rfl⟩ := s
  obtain ⟨_, _, rfl⟩ := t
  subst h
  rfl

theorem ofSlots_slots (s : Stack) : ofSlots s.slots = s := ext rfl

theorem pop?_eq_some_iff {s rest : Stack} {t : SlotType} :
    s.pop? = some (t, rest) ↔ s = rest.push t := by
  obtain ⟨_ | _, _, rfl⟩ := s <;> obtain ⟨_, _, rfl⟩ := rest <;> simp [pop?, push, and_assoc]

end Stack
end ClassVerifier
