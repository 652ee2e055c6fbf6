import ClassVerifier.Proofs.CodeBytes
import ClassVerifier.Proofs.Steps
import Mathlib.Data.List.Pairwise

/-! Switches as they are laid out in code. What is read at such a place is the switch that was laid
out, whatever comes before and behind it, and it is executed just in case its padding, its keys, the
operand and all of its targets are in order. -/
namespace ClassVerifier

/-- A switch as it is laid out behind its padding. A table has an offset for each key between its
bounds, and a lookup has one beside each key. -/
inductive SwitchLayout where
  | table (default low high : Int32) (offsets : List Int32) (bounds : low ≤ high)
      (counted : (offsets.length : Int) = high.toInt - low.toInt + 1)
  | lookup (default : Int32) (pairs : List (Int32 × Int32))

namespace SwitchLayout

def opcode : SwitchLayout → UInt8
  | table .. => 0xaa
  | lookup .. => 0xab

def default : SwitchLayout → Int32
  | table default .. | lookup default _ => default

/-- The offsets behind the default one, in order. -/
def offsets : SwitchLayout → List Int32
  | table _ _ _ offsets .. => offsets
  | lookup _ pairs => pairs.map (·.2)

/-- The keys that are written out. -/
def keys : SwitchLayout → List Int32
  | table .. => []
  | lookup _ pairs => pairs.map (·.1)

/-- The bytes behind the padding. -/
def operands : SwitchLayout → List UInt8
  | table default low high offsets .. =>
    intBytes default ++ (intBytes low ++ (intBytes high ++ offsets.flatMap intBytes))
  | lookup default pairs =>
    intBytes default ++ (intBytes (Int32.ofNat pairs.length) ++
      pairs.flatMap fun pair => intBytes pair.1 ++ intBytes pair.2)

def bytes (s : SwitchLayout) (padding : List UInt8) : List UInt8 :=
  s.opcode :: (padding ++ s.operands)

def cases : SwitchLayout → SwitchCases
  | table _ low high .. => .table low.toInt high.toInt
  | lookup _ pairs => .lookup pairs.length (pairs.map (·.1.toInt))

/-- Where the switch may lead from the offset: the default target, and then one target for each
offset. The sums wrap. -/
def targets (s : SwitchLayout) (b : Nat) : List Int :=
  (s.default :: s.offsets).map fun offset => (Int32.ofNat b + offset).toInt

/-- The instruction that is laid out at the offset. -/
def located (s : SwitchLayout) (b : Nat) (padding : List UInt8) : Located where
  offset := b
  opcode := s.opcode
  length := (s.bytes padding).length
  instruction := .switch ⟨padding, s.cases, s.targets b⟩

theorem length_table {default low high : Int32} {offsets : List Int32} {bounds : low ≤ high}
    {counted : (offsets.length : Int) = high.toInt - low.toInt + 1} (padding : List UInt8) :
    ((table default low high offsets bounds counted).bytes padding).length =
      1 + padding.length + 12 + offsets.length * 4 := by
  have rest : (offsets.flatMap intBytes).length = offsets.length * 4 :=
    length_flatMap_of_eq fun _ => rfl
  simp only [bytes, operands, List.length_cons, List.length_append, rest]
  change padding.length + (4 + (4 + (4 + _))) + 1 = _
  omega

theorem length_lookup {default : Int32} {pairs : List (Int32 × Int32)} (padding : List UInt8) :
    ((lookup default pairs).bytes padding).length = 1 + padding.length + 8 + pairs.length * 8 := by
  have rest : (pairs.flatMap fun pair => intBytes pair.1 ++ intBytes pair.2).length =
      pairs.length * 8 := length_flatMap_of_eq fun _ => rfl
  simp only [bytes, operands, List.length_cons, List.length_append, rest]
  change padding.length + (4 + (4 + _)) + 1 = _
  omega

end SwitchLayout

namespace Instruction
variable {code : Array UInt8} {b n : Nat} {padding : List UInt8}

/-- Up to three bytes that lead from an opcode to the next multiple of four. -/
structure Pads (b : Nat) (padding : List UInt8) : Prop where
  short : padding.length ≤ 3
  divides : 4 ∣ b + 1 + padding.length

theorem Pads.aligned_eq (h : Pads b padding) : aligned b = b + 1 + padding.length := by
  have short := h.short
  obtain ⟨k, hk⟩ := h.divides
  unfold aligned
  omega

/-- The sum of an offset in the code and a branch offset, by either way of wrapping it. -/
theorem target_toInt (b : Nat) (offset : Int32) :
    target b offset.toInt = (Int32.ofNat b + offset).toInt := by
  rw [Int32.toInt_add, Int32.toInt_ofNat', Int.bmod_add_bmod]
  rfl

private theorem targets_eq (s : SwitchLayout) (b : Nat) :
    s.targets b = (s.default :: s.offsets).map fun offset => target b offset.toInt :=
  List.map_congr_left fun offset _ => (target_toInt b offset).symm

/-- A table switch is read as it is laid out. -/
private theorem tableSwitch?_laid {default low high : Int32} {offsets : List Int32}
    {bounds : low ≤ high} {counted : (offsets.length : Int) = high.toInt - low.toInt + 1}
    {s : SwitchLayout} (hs : s = .table default low high offsets bounds counted)
    (small : code.size ≤ 65535) (pads : Pads b padding) (laid : Lies code b (s.bytes padding)) :
    tableSwitch? code b =
      some ((s.located b padding).instruction, (s.located b padding).length) := by
  subst hs
  have start := pads.aligned_eq
  have room := laid.room
  rw [SwitchLayout.length_table] at room
  have behind : Lies code (aligned b) (intBytes default ++ (intBytes low ++ (intBytes high ++
    offsets.flatMap intBytes))) := start ▸ laid.tail.right
  have lower : intAt? code (aligned b + 4) = some low.toInt := behind.right.left.int
  have upper : intAt? code (aligned b + 8) = some high.toInt := behind.right.right.left.int
  have rest : intsAt? code 4 offsets.length (aligned b + 12) = some (offsets.map (·.toInt)) :=
    behind.right.right.right.ints (k := 0) (fun _ => rfl) fun h => h
  have length : switchLength? ((aligned b - b : Nat) + (3 + high.toInt - low.toInt + 1) * 4) =
      some (1 + padding.length + 12 + offsets.length * 4) :=
    switchLength?_eq_some_iff.2 ⟨by omega, by omega, by omega⟩
  have fits : fits? code (b + (1 + padding.length + 12 + offsets.length * 4)) = some () :=
    if_pos room
  have count : (high.toInt - low.toInt + 1).toNat = offsets.length := by omega
  have pad : (code.extract (b + 1) (aligned b)).toList = padding :=
    start ▸ laid.tail.left.extract_eq
  rw [SwitchLayout.located, SwitchLayout.length_table, targets_eq]
  simp only [tableSwitch?, lower, upper, length, fits, behind.left.int, count, rest, pad,
    Option.bind_eq_bind, Option.bind_some, Option.pure_def, SwitchLayout.cases,
    SwitchLayout.default, SwitchLayout.offsets, List.map_cons, List.map_map, Function.comp_def]

/-- A lookup switch is read as it is laid out. -/
private theorem lookupSwitch?_laid {default : Int32} {pairs : List (Int32 × Int32)}
    {s : SwitchLayout} (hs : s = .lookup default pairs) (small : code.size ≤ 65535)
    (pads : Pads b padding) (laid : Lies code b (s.bytes padding)) :
    lookupSwitch? code b =
      some ((s.located b padding).instruction, (s.located b padding).length) := by
  subst hs
  have start := pads.aligned_eq
  have room := laid.room
  rw [SwitchLayout.length_lookup] at room
  have behind : Lies code (aligned b) (intBytes default ++ (intBytes (Int32.ofNat pairs.length) ++
    pairs.flatMap fun pair => intBytes pair.1 ++ intBytes pair.2)) := start ▸ laid.tail.right
  have count : intAt? code (aligned b + 4) = some (pairs.length : Int) := by
    rw [← Int32.toInt_ofNat_of_lt (n := pairs.length) (by omega)]
    exact behind.right.left.int
  have keys : intsAt? code 8 pairs.length (aligned b + 8) = some (pairs.map (·.1.toInt)) :=
    behind.right.right.ints (k := 0) (fun _ => rfl) fun h => h.left
  have second {b : Nat} {pair : Int32 × Int32}
      (h : Lies code b (intBytes pair.1 ++ intBytes pair.2)) :
      Lies code (b + 4) (intBytes pair.2) := h.right
  have rest : intsAt? code 8 pairs.length (aligned b + 12) = some (pairs.map (·.2.toInt)) :=
    behind.right.right.ints (k := 4) (fun _ => rfl) second
  have length : switchLength? ((aligned b - b : Nat) + (2 + 2 * (pairs.length : Int)) * 4) =
      some (1 + padding.length + 8 + pairs.length * 8) :=
    switchLength?_eq_some_iff.2 ⟨by omega, by omega, by omega⟩
  have fits : fits? code (b + (1 + padding.length + 8 + pairs.length * 8)) = some () :=
    if_pos room
  have pad : (code.extract (b + 1) (aligned b)).toList = padding :=
    start ▸ laid.tail.left.extract_eq
  rw [SwitchLayout.located, SwitchLayout.length_lookup, targets_eq]
  simp only [lookupSwitch?, count, length, fits, behind.left.int, Int.toNat_natCast, keys, rest,
    pad, Option.bind_eq_bind, Option.bind_some, Option.pure_def, SwitchLayout.cases,
    SwitchLayout.default, SwitchLayout.offsets, List.map_cons, List.map_map, Function.comp_def]

/-- What is read where a switch is laid out is that switch. -/
theorem decode?_switch {s : SwitchLayout} (small : code.size ≤ 65535) (pads : Pads b padding)
    (laid : Lies code b (s.bytes padding)) : decode? code b = some (s.located b padding) := by
  have plain : s.opcode ≠ 0xc4 := by
    cases s with
    | table => exact (by decide : (0xaa : UInt8) ≠ 0xc4)
    | lookup => exact (by decide : (0xab : UInt8) ≠ 0xc4)
  have read : operands? code b s.opcode.toNat =
      some ((s.located b padding).instruction, (s.located b padding).length) := by
    cases s with
    | table => exact tableSwitch?_laid rfl small pads laid
    | lookup => exact lookupSwitch?_laid rfl small pads laid
  exact decode?_of_operands? laid.byte plain read laid.room

end Instruction

private theorem Switch.ascending_iff {keys : List Int} :
    ascending keys ↔ keys.Pairwise (· < ·) := by
  induction keys with
  | nil => exact ⟨fun _ => .nil, fun _ => rfl⟩
  | cons a keys ih =>
    cases keys with
    | nil => exact ⟨fun _ => List.pairwise_singleton _ _, fun _ => rfl⟩
    | cons b keys =>
      rw [ascending, Bool.and_eq_true, decide_eq_true_eq, ih, List.pairwise_cons_cons_iff_of_trans]

/-- Only integers are accepted where an integer is expected. -/
theorem SlotType.accepts_integer {r : Resolver} {t : SlotType} :
    (SlotType.integer.accepts t).run r = .ok true ↔ t = .integer := by
  unfold accepts
  by_cases same : t = .integer
  · subst same
    simp
  · simp [same, Ne.symm same]

theorem Frame.popAll_integer_ok {r : Resolver} {f g : Frame} :
    (f.popAll [.integer]).run r = .ok g ↔
      ∃ below, f.stack.slots = .integer :: below ∧ g = { f with stack := .ofSlots below } := by
  have one : f.popAll [.integer] = f.popExpected .integer >>= fun popped => pure popped.2 := rfl
  rw [one, Check.bind_ok]
  constructor
  · rintro ⟨⟨t, middle⟩, popped, same⟩
    obtain ⟨⟨below, hs, rfl⟩, accepted⟩ := popExpected_ok.1 popped
    cases SlotType.accepts_integer.1 accepted
    exact ⟨below, hs, (Check.pure_ok.1 same).symm⟩
  · rintro ⟨below, hs, rfl⟩
    have popped := popExpected_ok (r := r).2 ⟨⟨below, hs, rfl⟩, SlotType.accepts_integer.2 rfl⟩
    exact ⟨_, popped, rfl⟩

namespace SwitchLayout

/-- Of what is checked of the cases, only the order of the keys does not hold for every layout. -/
private theorem checkCases_ok {s : SwitchLayout} (small : s.offsets.length < 0x80000000) :
    Switch.checkCases s.cases = .ok () ↔ s.keys.Pairwise (· < ·) := by
  cases s with
  | table default low high offsets bounds counted =>
    have small : offsets.length < 0x80000000 := small
    have ordered := Int32.le_iff_toInt_le.1 bounds
    have unwrapped : (offsets.length : Int).bmod 0x100000000 = offsets.length :=
      Int.bmod_eq_of_le (by omega) (by omega)
    have count : Instruction.signed 32 (high.toInt - low.toInt + 1) = offsets.length :=
      counted ▸ unwrapped
    rw [cases, Switch.checkCases, if_neg (by omega), count, if_neg (by omega)]
    exact ⟨fun _ => .nil, fun _ => rfl⟩
  | lookup default pairs =>
    have order : pairs.Pairwise (fun a b => a.1.toInt < b.1.toInt) ↔
        pairs.Pairwise (fun a b => a.1 < b.1) := by
      simp only [Int32.lt_iff_toInt_lt]
    rw [cases, Switch.checkCases, if_neg (by omega), keys, List.pairwise_map, ← order,
      ← List.pairwise_map, ← Switch.ascending_iff]
    split
    · next ascending => exact ⟨fun _ => ascending, fun _ => rfl⟩
    · next unsorted => exact ⟨nofun, fun ascending => absurd ascending unsorted⟩

end SwitchLayout

namespace Body
variable {r : Resolver} {m : Body} {f g : Frame} {flow : Flow}

private theorem checkSwitch_ok {table : Switch} :
    (m.checkSwitch table f).run r = .ok g ↔
      (dynamicVersion ≤ m.owner.version ∨ ∀ x ∈ table.padding, x = 0) ∧
      (∃ below, f.stack.slots = .integer :: below ∧ g = { f with stack := .ofSlots below }) ∧
      Switch.checkCases table.cases = .ok () := by
  have padded : (dynamicVersion ≤ m.owner.version || table.padding.all (· = 0)) = true ↔
      dynamicVersion ≤ m.owner.version ∨ ∀ x ∈ table.padding, x = 0 := by
    simp
  simp only [checkSwitch, Check.bind_ok, Check.require_ok, padded, Frame.popAll_integer_ok,
    Check.lift_ok, Check.pure_ok]
  constructor
  · rintro ⟨_, pad, popped, taken, _, cases, rfl⟩
    exact ⟨pad, taken, cases⟩
  · rintro ⟨pad, taken, cases⟩
    exact ⟨(), pad, g, taken, (), cases, rfl⟩

private theorem execute_switch_ok {table : Switch} :
    (m.execute (.switch table) f).run r = .ok (flow, g) ↔
      flow = .jump ∧ (m.checkSwitch table f).run r = .ok g ∧
      ∀ target ∈ table.targets,
        (m.stackMap.checkTarget m.listing.length g target).run r = .ok () := by
  simp only [execute_ok, ← checkTarget_ok (u := ()), effect, Check.bind_ok, Check.pure_ok,
    Prod.mk.injEq]
  constructor
  · rintro ⟨⟨popped, checked, rfl, rfl⟩, reach⟩
    exact ⟨rfl, checked, reach⟩
  · rintro ⟨rfl, checked, reach⟩
    exact ⟨⟨g, checked, rfl, rfl⟩, reach⟩

end Body

open Instruction (Lies Pads decode?)

/-- A switch that is laid out in code is read as such, without a look beyond its last byte: it is as
long as its layout, and leads to its default target and then to one target for each offset. It is
executed just in case its padding is zero or may be anything, its operand is an integer, its keys
ascend, and the frame without the operand may flow into each of the targets. -/
theorem SwitchLayout.read_and_executed {code : Array UInt8} {b : Nat} {padding : List UInt8}
    (s : SwitchLayout) (small : code.size ≤ 65535) (pads : Pads b padding)
    (laid : Lies code b (s.bytes padding)) :
    ∃ i, decode? code b = some i ∧ decode? (code.extract 0 i.next) b = some i ∧
      i.opcode = s.opcode ∧ i.next = b + (s.bytes padding).length ∧
      i.instruction = .switch ⟨padding, s.cases, s.targets b⟩ ∧
      ∀ (m : Body) (r : Resolver) (f g : Frame) (flow : Flow),
        (m.execute i.instruction f).run r = .ok (flow, g) ↔
          flow = .jump ∧ (51 ≤ m.owner.version ∨ ∀ x ∈ padding, x = 0) ∧
          (∃ below, f.stack.slots = .integer :: below ∧ g = { f with stack := .ofSlots below }) ∧
          s.keys.Pairwise (· < ·) ∧
          ∀ target ∈ s.targets b,
            (m.stackMap.checkTarget m.listing.length g target).run r = .ok () := by
  have cut : (code.extract 0 (b + (s.bytes padding).length)).size ≤ 65535 := by
    rw [Array.size_extract]
    omega
  have few : s.offsets.length < 0x80000000 := by
    have room := laid.room
    cases s with
    | table default low high offsets =>
      rw [length_table] at room
      change offsets.length < _
      omega
    | lookup default pairs =>
      rw [length_lookup] at room
      rw [offsets, List.length_map]
      omega
  refine ⟨s.located b padding, Instruction.decode?_switch small pads laid,
    Instruction.decode?_switch cut pads laid.cut, rfl, rfl, rfl, fun m r f g flow => ?_⟩
  rw [located, Body.execute_switch_ok, Body.checkSwitch_ok, checkCases_ok few]
  simp only [and_assoc]
  rfl

/-- A lookup with two keys behind two bytes of padding, the second of its targets before it. -/
theorem SwitchLayout.read_and_executed_lookup :
    ∃ i, decode? #[0x00, 0xab, 0x00, 0x00, 0x00, 0x00, 0x00, 0x1b, 0x00, 0x00, 0x00, 0x02,
        0xff, 0xff, 0xff, 0xff, 0xff, 0xff, 0xff, 0xff, 0x00, 0x00, 0x00, 0x07,
        0x00, 0x00, 0x00, 0x1b, 0xb1] 1 = some i ∧
      i.next = 28 ∧ i.instruction.targets = [28, 0, 28] := by
  have pads : Pads 1 [0x00, 0x00] := ⟨by decide, by decide⟩
  obtain ⟨i, read, _, _, next, instruction, _⟩ :=
    read_and_executed (.lookup 27 [(-1, -1), (7, 27)]) (by decide) pads ⟨[0x00], [0xb1], rfl, rfl⟩
  refine ⟨i, read, next, ?_⟩
  rw [instruction]
  decide

end ClassVerifier
