import ClassVerifier.Instruction.Listing
import ClassVerifier.Proofs.InstructionLengths

/-! What the first bytes of an instruction say about it: its opcode, whether it is widened, how long
it is and whether it allocates, and the reasons for which nothing is read at an offset. -/
namespace ClassVerifier

/-- Whether the instruction stands behind a widening prefix, which shows in its length. -/
def Located.isWide (i : Located) : Bool :=
  Instruction.widenedLength? i.opcode.toNat = some i.length

namespace Instruction
variable {code : Array UInt8} {b n op : Nat} {i : Located}

/-- The opcode at an offset without a widening prefix, and whether there is one. -/
def header? (code : Array UInt8) (b : Nat) : Option (UInt8 × Bool) := do
  let op ← code[b]?
  if op = 0xc4 then return (← code[b + 1]?, true)
  else return (op, false)

/-- What the bounds of a table switch at an offset yield for its length. -/
def tableExtent? (code : Array UInt8) (b : Nat) : Option Int := do
  let low ← intAt? code (aligned b + 4)
  let high ← intAt? code (aligned b + 8)
  return (aligned b - b : Nat) + (3 + high - low + 1) * 4

/-- What the count of a lookup switch at an offset yields for its length. -/
def lookupExtent? (code : Array UInt8) (b : Nat) : Option Int := do
  let count ← intAt? code (aligned b + 4)
  return (aligned b - b : Nat) + (2 + 2 * count) * 4

/-- How far the instruction at an offset extends by its header; for a switch this may be no positive
number. -/
def extent? (code : Array UInt8) (b : Nat) : Option Int := do
  let op ← code[b]?
  if op = 0xc4 then (widenedLength? (← code[b + 1]?).toNat).map Int.ofNat
  else if op = 0xaa then tableExtent? code b
  else if op = 0xab then lookupExtent? code b
  else (fixedLength? op.toNat).map Int.ofNat

/-- Why there is no instruction at an offset inside the code. -/
inductive Illegal (code : Array UInt8) (b : Nat) : Prop
  /-- The opcode is not defined. -/
  | undefined {op : UInt8} (first : code[b]? = some op) (undefined : 0xc9 < op)
  /-- There is nothing behind a widening prefix. -/
  | lonePrefix (first : code[b]? = some 0xc4) (last : b + 1 = code.size)
  /-- What is behind a widening prefix cannot be widened. -/
  | misapplied {op : UInt8} (first : code[b]? = some 0xc4) (second : code[b + 1]? = some op)
      (narrow : widenedLength? op.toNat = none)
  /-- The bounds of a table or the count of a lookup are not all there. -/
  | cutOff {op : UInt8} (first : code[b]? = some op)
      (short : op = 0xaa ∧ code.size < aligned b + 12 ∨ op = 0xab ∧ code.size < aligned b + 8)
  /-- The header of a switch yields no positive length. -/
  | empty {length : Int} (extent : extent? code b = some length) (empty : length ≤ 0)
  /-- The instruction does not fit into the code. -/
  | overlong {length : Int} (extent : extent? code b = some length)
      (beyond : code.size < b + length)

private theorem length_of_fixedLength? :
    ∀ op < 256, ∀ n ∈ fixedLength? op, 0 < n ∧ n ≤ 5 ∧ widenedLength? op ≠ some n := by
  decide +kernel

private theorem length_of_widenedLength? :
    ∀ op < 256, ∀ n ∈ widenedLength? op, 0 < n ∧ n ≤ 6 := by decide +kernel

private theorem fixedLength?_eq_none : ∀ op < 256,
    fixedLength? op = none ↔ op = 0xaa ∨ op = 0xab ∨ op = 0xc4 ∨ 0xc9 < op := by decide +kernel

/-- A length is announced if the instruction extends by a positive number of bytes. -/
private theorem announced?_eq : announced? code b = (extent? code b).bind switchLength? := by
  unfold announced? extent?
  cases code[b]? with
  | none => rfl
  | some op =>
    simp only [Option.bind_eq_bind, Option.bind_some]
    by_cases wide : op = 0xc4
    · rw [if_pos wide, if_pos wide]
      cases code[b + 1]? with
      | none => rfl
      | some second =>
        rw [Option.bind_some, Option.bind_some]
        cases length : widenedLength? second.toNat with
        | none => rfl
        | some n =>
          obtain ⟨positive, short⟩ := length_of_widenedLength? _ (UInt8.toNat_lt second) n length
          exact (switchLength?_eq_some_iff.2 ⟨by omega, by omega, rfl⟩).symm
    · rw [if_neg wide, if_neg wide]
      by_cases table : op = 0xaa
      · subst table
        simp [switchSize?, tableExtent?, Option.bind_assoc]
      · by_cases lookup : op = 0xab
        · subst lookup
          simp [switchSize?, lookupExtent?, Option.bind_assoc]
        · rw [if_neg (not_or.2 ⟨table, lookup⟩), if_neg table, if_neg lookup]
          cases length : fixedLength? op.toNat with
          | none => rfl
          | some n =>
            obtain ⟨positive, short, _⟩ := length_of_fixedLength? _ (UInt8.toNat_lt op) n length
            exact (switchLength?_eq_some_iff.2 ⟨by omega, by omega, rfl⟩).symm

/-- An instruction is read where it extends by a positive number of bytes and fits into the code. -/
theorem decode?_extent_iff (small : code.size ≤ 65535) :
    (∃ i, decode? code b = some i ∧ i.length = n) ↔
      extent? code b = some (n : Int) ∧ 0 < n ∧ b + n ≤ code.size := by
  rw [decode?_length_iff, announced?_eq, Option.bind_eq_some_iff]
  constructor
  · rintro ⟨⟨length, extent, positive⟩, room⟩
    obtain ⟨positive, _, rfl⟩ := switchLength?_eq_some_iff.1 positive
    exact ⟨extent, by omega, room⟩
  · rintro ⟨extent, positive, room⟩
    exact ⟨⟨n, extent, switchLength?_eq_some_iff.2 ⟨by omega, by omega, rfl⟩⟩, room⟩

theorem exists_decode? {length : Int} (small : code.size ≤ 65535)
    (extent : extent? code b = some length) (positive : 0 < length)
    (room : b + length ≤ code.size) : ∃ i, decode? code b = some i := by
  have whole : (length.toNat : Int) = length := Int.toNat_of_nonneg (by omega)
  obtain ⟨i, read, _⟩ := (decode?_extent_iff (n := length.toNat) small).2
    ⟨whole.symm ▸ extent, by omega, by omega⟩
  exact ⟨i, read⟩

private theorem tableExtent?_eq_none_iff :
    tableExtent? code b = none ↔ code.size < aligned b + 12 := by
  unfold tableExtent?
  cases low : intAt? code (aligned b + 4) with
  | none =>
    have short := intAt?_eq_none_iff.1 low
    exact iff_of_true rfl (by omega)
  | some low =>
    cases high : intAt? code (aligned b + 8) with
    | none => exact iff_of_true rfl (intAt?_eq_none_iff.1 high)
    | some high' =>
      have whole : ¬code.size < aligned b + 8 + 4 := by
        rw [← intAt?_eq_none_iff, high]
        nofun
      exact iff_of_false nofun whole

private theorem lookupExtent?_eq_none_iff :
    lookupExtent? code b = none ↔ code.size < aligned b + 8 := by
  rw [← intAt?_eq_none_iff (b := aligned b + 4), lookupExtent?]
  cases intAt? code (aligned b + 4) with
  | none => exact iff_of_true rfl rfl
  | some count => exact iff_of_false nofun nofun

/-- What has no length has no defined opcode, or not all of its header. -/
private theorem extent?_eq_none_iff {op : UInt8} (first : code[b]? = some op) :
    extent? code b = none ↔
      0xc9 < op ∨ op = 0xc4 ∧ (∀ second, code[b + 1]? = some second →
        widenedLength? second.toNat = none) ∨
      op = 0xaa ∧ code.size < aligned b + 12 ∨ op = 0xab ∧ code.size < aligned b + 8 := by
  simp only [extent?, first, Option.bind_eq_bind, Option.bind_some]
  by_cases wide : op = 0xc4
  · subst wide
    simp
  · by_cases table : op = 0xaa
    · subst table
      simp [tableExtent?_eq_none_iff]
    · by_cases lookup : op = 0xab
      · subst lookup
        simp [lookupExtent?_eq_none_iff]
      · have differs {k : UInt8} (ne : op ≠ k) : op.toNat ≠ k.toNat := mt UInt8.toNat_inj.1 ne
        have wide' : op.toNat ≠ 0xc4 := differs wide
        have table' : op.toNat ≠ 0xaa := differs table
        have lookup' : op.toNat ≠ 0xab := differs lookup
        rw [if_neg wide, if_neg table, if_neg lookup, Option.map_eq_none_iff,
          fixedLength?_eq_none op.toNat (UInt8.toNat_lt op), UInt8.lt_iff_toNat_lt]
        simp [wide, table, lookup, wide', table', lookup']

/-- An offset is illegal just in case no positive length that fits into the code can be told. -/
private theorem illegal_iff (inside : b < code.size) : Illegal code b ↔
    ∀ n, extent? code b = some n → n ≤ 0 ∨ code.size < b + n := by
  constructor
  · have headless (h : extent? code b = none) (n : Int) (extent : extent? code b = some n) :
        n ≤ 0 ∨ code.size < b + n := nomatch h.symm.trans extent
    rintro (⟨first, undefined⟩ | ⟨first, last⟩ | ⟨first, second, narrow⟩ | ⟨first, short⟩ |
      ⟨extent, empty⟩ | ⟨extent, beyond⟩)
    · exact headless ((extent?_eq_none_iff first).2 (.inl undefined))
    · have nothing : code[b + 1]? = none := Array.getElem?_eq_none (by omega)
      refine headless ((extent?_eq_none_iff first).2 (.inr (.inl ⟨rfl, fun _ second => ?_⟩)))
      cases nothing.symm.trans second
    · refine headless ((extent?_eq_none_iff first).2 (.inr (.inl ⟨rfl, fun _ second' => ?_⟩)))
      cases second.symm.trans second'
      exact narrow
    · exact headless ((extent?_eq_none_iff first).2 (.inr (.inr short)))
    · intro n extent'
      cases extent.symm.trans extent'
      exact .inl empty
    · intro n extent'
      cases extent.symm.trans extent'
      exact .inr beyond
  · intro h
    have first : code[b]? = some code[b] := Array.getElem?_eq_getElem inside
    generalize code[b] = op at first
    cases extent : extent? code b with
    | none =>
      rcases (extent?_eq_none_iff first).1 extent with undefined | ⟨rfl, narrow⟩ | short
      · exact .undefined first undefined
      · cases second : code[b + 1]? with
        | none =>
          have behind := Array.getElem?_eq_none_iff.1 second
          exact .lonePrefix first (by omega)
        | some op => exact .misapplied first second (narrow op second)
      · exact .cutOff first short
    | some n =>
      rcases h n extent with empty | beyond
      · exact .empty extent empty
      · exact .overlong extent beyond

/-- Nothing is read at an offset for one of these reasons and for no other. -/
theorem decode?_eq_none_iff (small : code.size ≤ 65535) (inside : b < code.size) :
    decode? code b = none ↔ Illegal code b := by
  rw [illegal_iff inside]
  constructor
  · intro nothing n extent
    by_cases empty : n ≤ 0
    · exact .inl empty
    · refine .inr (Int.lt_of_not_ge fun room => ?_)
      obtain ⟨i, read⟩ := exists_decode? small extent (Int.lt_of_not_ge empty) room
      cases nothing.symm.trans read
  · intro illegal
    cases read : decode? code b with
    | none => rfl
    | some i =>
      obtain ⟨extent, positive, room⟩ := (decode?_extent_iff small).1 ⟨i, read, rfl⟩
      have := illegal i.length extent
      omega

/-- The header that is read is the one that is there. -/
theorem header?_of_decode? (h : decode? code b = some i) :
    header? code b = some (i.opcode, i.isWide) := by
  have announced : announced? code b = some i.length := (decode?_length_iff.1 ⟨i, h, rfl⟩).1
  rcases decode?_cases h with ⟨op, _, _, first, second, _, _, rfl⟩ |
    ⟨op, length, _, plain, first, _, _, rfl⟩
  · simp only [announced?, first, second, if_true, Option.bind_eq_bind, Option.bind_some]
      at announced
    simp only [header?, first, second, if_true, Option.bind_eq_bind, Option.bind_some]
    rw [Located.isWide, decide_eq_true announced]
    rfl
  · simp only [announced?, first, Option.bind_eq_bind, Option.bind_some] at announced
    simp only [header?, first, Option.bind_eq_bind, Option.bind_some]
    have narrow : widenedLength? op.toNat ≠ some length := by
      rw [if_neg plain] at announced
      split at announced
      · next switch =>
        intro wide
        rcases switch with rfl | rfl <;> cases wide
      · exact (length_of_fixedLength? _ (UInt8.toNat_lt op) length announced).2.2
    rw [if_neg plain, Located.isWide, decide_eq_false narrow]
    rfl

/-- Whether the instruction allocates an object. -/
def isNew : Instruction → Bool
  | new _ => true
  | _ => false

/-- Whether the opcode and the instruction agree about allocation. -/
private def marks (op : Nat) (i : Instruction) : Bool := i.isNew == decide (op = 0xbb)

private theorem bare?_marks : ∀ op < 256, (bare? op).all (marks op) := by decide +kernel

private theorem withByte?_marks (x : UInt8) : ∀ op < 256, (withByte? op x).all (marks op) := by
  have same (op : Nat) : (withByte? op x).all (marks op) = (withByte? op 0).all (marks op) := by
    simp only [withByte?, apply_ite (Option.all (marks op)), Option.all_some, Option.all_none,
      marks, isNew]
  intro op hop
  rw [same]
  revert op
  decide +kernel

private theorem withWord?_marks (b : Nat) (w : UInt16) :
    ∀ op < 256, (withWord? b op w).all (marks op) := by
  have same (op : Nat) : (withWord? b op w).all (marks op) = (withWord? 0 op 0).all (marks op) := by
    simp only [withWord?, apply_ite (Option.all (marks op)), Option.all_some, Option.all_none,
      marks, isNew]
  intro op hop
  rw [same]
  revert op
  decide +kernel

private theorem operands?_marks {i : Instruction} (hop : op < 256)
    (h : operands? code b op = some (i, n)) : marks op i := by
  have all {x : Option Instruction} (hx : x.all (marks op)) (hi : x = some i) : marks op i := by
    rwa [hi] at hx
  rcases operands?_cases h with ⟨rfl, _, _, rfl⟩ | ⟨rfl, table⟩ | ⟨rfl, lookup⟩ | ⟨_, one⟩ |
    ⟨_, x, two⟩ | ⟨_, w, three⟩ | more
  · rfl
  · obtain ⟨_, _, _, _, _, _, _, _, rfl⟩ := tableSwitch?_cases table
    rfl
  · obtain ⟨_, _, _, _, _, _, _, rfl⟩ := lookupSwitch?_cases lookup
    rfl
  · exact all (bare?_marks op hop) one
  · exact all (withByte?_marks x op hop) two
  · exact all (withWord?_marks b w op hop) three
  · rcases long?_cases more with ⟨rfl, _, _, _, _, rfl⟩ | ⟨rfl, _, _, _, _, rfl⟩ |
      ⟨rfl, _, _, _, rfl⟩ | ⟨rfl, _, _, rfl⟩ | ⟨rfl, _, rfl⟩
    all_goals rfl

private theorem widened?_plain (index : UInt16) :
    (widened? op index).all fun i => !isNew i := by
  simp only [widened?, apply_ite (Option.all fun i => !isNew i), Option.all_some, Option.all_none]
  simp [isNew]

/-- An instruction allocates an object just in case its first byte is the opcode for that. -/
theorem isNew_iff_of_decode? (h : decode? code b = some i) :
    i.instruction.isNew ↔ code[b]? = some 0xbb := by
  rcases decode?_cases h with ⟨op, index, _, first, _, read, _, rfl⟩ |
    ⟨op, _, _, _, first, read, _, rfl⟩
  · have plain : ((widened? op.toNat index).all fun i => !isNew i) := widened?_plain index
    rw [read] at plain
    rw [(Bool.not_eq_true' _).mp plain, first]
    decide
  · rw [first, Option.some.injEq, eq_of_beq (operands?_marks (UInt8.toNat_lt op) read),
      decide_eq_true_eq]
    exact UInt8.toNat_inj (b := 0xbb)

private theorem operands?_new :
    operands? code b 0xbb = (wordAt? code (b + 1)).map fun index => (.new index, 3) := by
  have bare : bare? 0xbb = none := rfl
  have byte : withByte? 0xbb = fun _ => none := rfl
  have word : withWord? b 0xbb = fun index => some (.new index) := rfl
  cases read : wordAt? code (b + 1) <;> simp [operands?, bare, byte, word, long?, read]

/-- The bytes of an allocation hold the index of its class right behind the opcode. -/
theorem newIndex?_of_decode? {index : UInt16} (h : decode? code b = some i)
    (new : i.instruction = .new index) : Listing.newIndex? code b = some index := by
  have allocates : i.instruction.isNew := by
    rw [new]
    rfl
  have first := (isNew_iff_of_decode? h).1 allocates
  rcases decode?_cases h with ⟨_, _, _, wide, _⟩ | ⟨op, _, _, _, plain, read, _, rfl⟩
  · rw [first] at wide
    cases wide
  · cases first.symm.trans plain
    cases new
    obtain ⟨word, found, same⟩ := Option.map_eq_some_iff.1 (operands?_new.symm.trans read)
    cases same
    simp [Listing.newIndex?, first, found]

end Instruction
end ClassVerifier
