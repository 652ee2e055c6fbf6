import ClassVerifier.Instruction.Decode

/-! How long an instruction is, as its header announces it, and that this is all it takes to read
one: where the announced length fits into the code, every operand is there and the instruction is
read with that length. What was read is also known to be an instruction that code can hold. -/
namespace ClassVerifier.Instruction
variable {code : Array UInt8} {b n op : Nat} {i : Instruction}

/-- The length by the opcode alone. Switches and the widening prefix have none, because more than
the opcode has to be read for theirs. -/
def fixedLength? (op : Nat) : Option Nat :=
  if op = 0xaa ∨ op = 0xab ∨ 0xc4 = op then none
  else if op = 0x10 ∨ op = 0x12 ∨ 0x15 ≤ op ∧ op < 0x1a ∨ 0x36 ≤ op ∧ op < 0x3b ∨ op = 0xa9 ∨
    op = 0xbc then some 2
  else if op = 0x11 ∨ op = 0x13 ∨ op = 0x14 ∨ op = 0x84 ∨ 0x99 ≤ op ∧ op < 0xa9 ∨
    0xb2 ≤ op ∧ op < 0xb9 ∨ op = 0xbb ∨ op = 0xbd ∨ op = 0xc0 ∨ op = 0xc1 ∨ op = 0xc6 ∨
    op = 0xc7 then some 3
  else if op = 0xc5 then some 4
  else if op = 0xb9 ∨ op = 0xba ∨ op = 0xc8 ∨ op = 0xc9 then some 5
  else if op < 0xca then some 1
  else none

/-- The length behind a widening prefix. -/
def widenedLength? (op : Nat) : Option Nat :=
  if op = 0x84 then some 6
  else if 0x15 ≤ op ∧ op < 0x1a ∨ 0x36 ≤ op ∧ op < 0x3b ∨ op = 0xa9 then some 4
  else none

/-- The length of a switch by the two numbers behind its default target. -/
def switchSize? (code : Array UInt8) (b op : Nat) : Option Nat := do
  let start := aligned b
  if op = 0xaa then
    let low ← intAt? code (start + 4)
    let high ← intAt? code (start + 8)
    switchLength? ((start - b : Nat) + (3 + high - low + 1) * 4)
  else
    let count ← intAt? code (start + 4)
    switchLength? ((start - b : Nat) + (2 + 2 * count) * 4)

/-- The length that the header of the instruction at `b` announces. -/
def announced? (code : Array UInt8) (b : Nat) : Option Nat := do
  let op ← code[b]?
  if op = 0xc4 then widenedLength? (← code[b + 1]?).toNat
  else if op = 0xaa ∨ op = 0xab then switchSize? code b op.toNat
  else fixedLength? op.toNat

private theorem fits?_eq_some {u : Unit} : fits? code n = some u ↔ n ≤ code.size := by
  simp [fits?]

private theorem fits?_of_room (room : n ≤ code.size) : fits? code n = some () :=
  fits?_eq_some.2 room

private theorem wordAt?_of_room (room : b + 2 ≤ code.size) : ∃ w, wordAt? code b = some w := by
  rw [wordAt?, Array.getElem?_eq_getElem (by omega), Array.getElem?_eq_getElem (by omega)]
  exact ⟨_, rfl⟩

private theorem intAt?_of_room (room : b + 4 ≤ code.size) : ∃ x, intAt? code b = some x := by
  obtain ⟨high, hh⟩ := wordAt?_of_room (show b + 2 ≤ code.size by omega)
  obtain ⟨low, hl⟩ := wordAt?_of_room (show b + 2 + 2 ≤ code.size by omega)
  rw [intAt?, hh, hl]
  exact ⟨_, rfl⟩

private theorem room_of_wordAt? {w : UInt16} (h : wordAt? code b = some w) :
    b + 2 ≤ code.size := by
  simp only [wordAt?, Option.bind_eq_bind, Option.bind_eq_some_iff] at h
  obtain ⟨_, _, _, low, _⟩ := h
  have := (Array.getElem?_eq_some_iff.1 low).1
  omega

private theorem room_of_intAt? {x : Int} (h : intAt? code b = some x) : b + 4 ≤ code.size := by
  simp only [intAt?, Option.bind_eq_bind, Option.bind_eq_some_iff] at h
  obtain ⟨_, _, _, low, _⟩ := h
  have := room_of_wordAt? low
  omega

theorem intAt?_eq_none_iff : intAt? code b = none ↔ code.size < b + 4 := by
  rw [Option.eq_none_iff_forall_ne_some]
  constructor
  · intro h
    refine Nat.lt_of_not_le fun room => ?_
    obtain ⟨x, hx⟩ := intAt?_of_room room
    exact h x hx
  · intro beyond x hx
    have := room_of_intAt? hx
    omega

private theorem intsAt?_of_room (step : Nat) {count : Nat}
    (room : ∀ k < count, b + k * step + 4 ≤ code.size) :
    ∃ xs, intsAt? code step count b = some xs := by
  induction count generalizing b with
  | zero => exact ⟨[], rfl⟩
  | succ count ih =>
    have first : b + 4 ≤ code.size := by simpa using room 0 (Nat.succ_pos count)
    obtain ⟨x, hx⟩ := intAt?_of_room first
    obtain ⟨xs, hxs⟩ := ih (b := b + step) fun k hk => by
      have := room (k + 1) (by omega)
      rw [Nat.succ_mul] at this
      omega
    rw [intsAt?, hx, hxs]
    exact ⟨_, rfl⟩

private theorem aligned_le (b : Nat) : b < aligned b := by
  unfold aligned
  omega

private theorem tableSwitch?_length (h : tableSwitch? code b = some (i, n)) :
    switchSize? code b 0xaa = some n ∧ b + n ≤ code.size := by
  obtain ⟨low, high, _, _, hl, hh, hm, hf, _⟩ := tableSwitch?_cases h
  refine ⟨?_, fits?_eq_some.1 hf⟩
  simp only [switchSize?, if_true, hl, hh, Option.bind_eq_bind, Option.bind_some]
  exact hm

private theorem lookupSwitch?_length (h : lookupSwitch? code b = some (i, n)) :
    switchSize? code b 0xab = some n ∧ b + n ≤ code.size := by
  obtain ⟨count, _, _, _, hc, hm, hf, _⟩ := lookupSwitch?_cases h
  refine ⟨?_, fits?_eq_some.1 hf⟩
  rw [switchSize?, if_neg (by decide)]
  simp only [hc, Option.bind_eq_bind, Option.bind_some]
  exact hm

/-- The default target lies before the bounds; the targets behind them are part of the length. -/
private theorem tableSwitch?_of_room (h : switchSize? code b 0xaa = some n)
    (room : b + n ≤ code.size) : ∃ i, tableSwitch? code b = some (i, n) := by
  simp only [switchSize?, if_true, Option.bind_eq_bind, Option.bind_eq_some_iff] at h
  obtain ⟨low, hl, high, hh, hn⟩ := h
  obtain ⟨_, _, length⟩ := switchLength?_eq_some_iff.1 hn
  have header := room_of_intAt? hh
  have behind := aligned_le b
  obtain ⟨default, hd⟩ := intAt?_of_room (show aligned b + 4 ≤ code.size by omega)
  have inside : ∀ k < (high - low + 1).toNat, aligned b + 12 + k * 4 + 4 ≤ code.size :=
    fun k hk => by omega
  obtain ⟨offsets, ho⟩ := intsAt?_of_room 4 inside
  simp only [tableSwitch?, hl, hh, hn, fits?_of_room room, hd, ho, Option.bind_eq_bind,
    Option.bind_some]
  exact ⟨_, rfl⟩

private theorem lookupSwitch?_of_room (h : switchSize? code b 0xab = some n)
    (room : b + n ≤ code.size) : ∃ i, lookupSwitch? code b = some (i, n) := by
  rw [switchSize?, if_neg (by decide)] at h
  simp only [Option.bind_eq_bind, Option.bind_eq_some_iff] at h
  obtain ⟨count, hc, hn⟩ := h
  obtain ⟨_, _, length⟩ := switchLength?_eq_some_iff.1 hn
  have header := room_of_intAt? hc
  have behind := aligned_le b
  obtain ⟨default, hd⟩ := intAt?_of_room (show aligned b + 4 ≤ code.size by omega)
  have inside : ∀ k < count.toNat, aligned b + 12 + k * 8 + 4 ≤ code.size := fun k hk => by omega
  have before : ∀ k < count.toNat, aligned b + 8 + k * 8 + 4 ≤ code.size := fun k hk => by omega
  obtain ⟨keys, hk⟩ := intsAt?_of_room 8 before
  obtain ⟨offsets, ho⟩ := intsAt?_of_room 8 inside
  simp only [lookupSwitch?, hc, hn, fits?_of_room room, hd, hk, ho, Option.bind_eq_bind,
    Option.bind_some]
  exact ⟨_, rfl⟩

private theorem bare?_isSome : ∀ op < 256, (bare? op).isSome = (fixedLength? op = some 1) := by
  decide +kernel

private theorem withByte?_isSome (x : UInt8) :
    ∀ op < 256, (withByte? op x).isSome = (fixedLength? op = some 2) := by
  have same (op : Nat) : (withByte? op x).isSome = (withByte? op 0).isSome := by
    simp only [withByte?, apply_ite Option.isSome, Option.isSome_some, Option.isSome_none]
  intro op hop
  rw [same]
  revert op
  decide +kernel

private theorem withWord?_isSome (b : Nat) (w : UInt16) :
    ∀ op < 256, (withWord? b op w).isSome = (fixedLength? op = some 3 ∧ op ≠ 0x84) := by
  have same (op : Nat) : (withWord? b op w).isSome = (withWord? 0 op 0).isSome := by
    simp only [withWord?, apply_ite Option.isSome, Option.isSome_some, Option.isSome_none]
  intro op hop
  rw [same]
  revert op
  decide +kernel

private theorem widened?_isSome (index : UInt16) :
    (widened? op index).isSome ↔ ∃ n, widenedLength? op = some n := by
  unfold widened? widenedLength?
  by_cases load : 0x15 ≤ op ∧ op < 0x1a
  · rw [if_pos load, if_neg (by omega), if_pos (.inl load)]
    simp
  · by_cases store : 0x36 ≤ op ∧ op < 0x3b
    · rw [if_neg load, if_pos store, if_neg (by omega), if_pos (.inr (.inl store))]
      simp
    · by_cases increment : op = 0x84
      · simp [increment]
      · by_cases back : op = 0xa9
        · simp [back]
        · simp [load, store, increment, back]

private theorem long?_length (h : long? code b op = some (i, n)) : fixedLength? op = some n := by
  rcases long?_cases h with ⟨rfl, rfl, _⟩ | ⟨rfl, rfl, _⟩ | ⟨rfl, rfl, _⟩ | ⟨rfl, rfl, _⟩ |
    ⟨rfl, rfl, _⟩
  all_goals decide

private theorem fixedLength?_eq_some (h : fixedLength? op = some n) : n = 1 ∨ n = 2 ∨ n = 3 ∨
    op = 0xc5 ∧ n = 4 ∨ (op = 0xb9 ∨ op = 0xba ∨ op = 0xc8 ∨ op = 0xc9) ∧ n = 5 := by
  unfold fixedLength? at h
  split at h
  · cases h
  · split at h
    · cases h
      simp
    · split at h
      · cases h
        simp
      · split at h
        · next four =>
          cases h
          simp [four]
        · split at h
          · next five =>
            cases h
            simp [five]
          · split at h
            · cases h
              simp
            · cases h

private theorem long?_of_room (h : fixedLength? op = some n) (long : n ≠ 1 ∧ n ≠ 2 ∧ n ≠ 3)
    (room : b + n ≤ code.size) : ∃ i, long? code b op = some (i, n) := by
  have known : op = 0xc5 ∧ n = 4 ∨
      (op = 0xb9 ∨ op = 0xba ∨ op = 0xc8 ∨ op = 0xc9) ∧ n = 5 := by
    have := fixedLength?_eq_some h
    omega
  obtain ⟨w, hw⟩ := wordAt?_of_room (show b + 1 + 2 ≤ code.size by omega)
  rcases known with ⟨rfl, rfl⟩ | ⟨rfl | rfl | rfl | rfl, rfl⟩
  · rw [long?, hw, Array.getElem?_eq_getElem (by omega)]
    exact ⟨_, rfl⟩
  · rw [long?, hw, Array.getElem?_eq_getElem (by omega), Array.getElem?_eq_getElem (by omega)]
    exact ⟨_, rfl⟩
  · rw [long?, hw, Array.getElem?_eq_getElem (by omega), Array.getElem?_eq_getElem (by omega)]
    exact ⟨_, rfl⟩
  · obtain ⟨offset, ho⟩ := intAt?_of_room (show b + 1 + 4 ≤ code.size by omega)
    rw [long?, ho]
    exact ⟨_, rfl⟩
  · exact ⟨_, rfl⟩

/-- An opcode with a fixed length is read by whatever reads instructions of that length. -/
private theorem operands?_length (hop : op < 256) (haa : op ≠ 0xaa) (hab : op ≠ 0xab)
    (h : operands? code b op = some (i, n)) : fixedLength? op = some n := by
  rcases operands?_cases h with ⟨rfl, rfl, _⟩ | ⟨table, _⟩ | ⟨lookup, _⟩ | ⟨rfl, one⟩ |
    ⟨rfl, x, two⟩ | ⟨rfl, w, three⟩ | more
  · decide
  · exact absurd table haa
  · exact absurd lookup hab
  · exact (bare?_isSome op hop).mp (one ▸ rfl)
  · exact (withByte?_isSome x op hop).mp (two ▸ rfl)
  · exact ((withWord?_isSome b w op hop).mp (three ▸ rfl)).1
  · exact long?_length more

private theorem operands?_of_room (hop : op < 256) (haa : op ≠ 0xaa) (hab : op ≠ 0xab)
    (h : fixedLength? op = some n) (room : b + n ≤ code.size) :
    ∃ i, operands? code b op = some (i, n) := by
  unfold operands?
  split
  · cases h
    rw [Array.getElem?_eq_getElem (by omega)]
    exact ⟨_, rfl⟩
  · exact absurd rfl haa
  · exact absurd rfl hab
  · next h84 _ _ =>
    have one : (bare? op).isSome = (n = 1) := by
      rw [bare?_isSome op hop, h, Option.some.injEq]
    have two (x : UInt8) : (withByte? op x).isSome = (n = 2) := by
      rw [withByte?_isSome x op hop, h, Option.some.injEq]
    have three (w : UInt16) : (withWord? b op w).isSome = (n = 3) := by
      rw [withWord?_isSome b w op hop, h, Option.some.injEq]
      exact propext (and_iff_left fun he => h84 he)
    simp only [Option.orElse_eq_orElse, Option.orElse_eq_or]
    by_cases h1 : n = 1
    · obtain ⟨i, hi⟩ := Option.isSome_iff_exists.1 (one.mpr h1)
      rw [hi, h1]
      exact ⟨i, rfl⟩
    · have first : bare? op = none := Option.not_isSome_iff_eq_none.1 (one ▸ h1)
      rw [first, Option.map_none, Option.none_or]
      by_cases h2 : n = 2
      · have inside : b + 1 < code.size := by omega
        obtain ⟨i, hi⟩ := Option.isSome_iff_exists.1 ((two code[b + 1]).mpr h2)
        rw [Array.getElem?_eq_getElem (by omega), Option.bind_some, hi, h2]
        exact ⟨i, rfl⟩
      · have second : (code[b + 1]?).bind (withByte? op) = none :=
          Option.bind_eq_none_iff.2 fun x _ => Option.not_isSome_iff_eq_none.1 (two x ▸ h2)
        rw [second, Option.map_none, Option.none_or]
        by_cases h3 : n = 3
        · obtain ⟨w, hw⟩ := wordAt?_of_room (show b + 1 + 2 ≤ code.size by omega)
          obtain ⟨i, hi⟩ := Option.isSome_iff_exists.1 ((three w).mpr h3)
          rw [hw, Option.bind_some, hi, h3]
          exact ⟨i, rfl⟩
        · have third : (wordAt? code (b + 1)).bind (withWord? b op) = none :=
            Option.bind_eq_none_iff.2 fun w _ => Option.not_isSome_iff_eq_none.1 (three w ▸ h3)
          rw [third, Option.map_none, Option.none_or]
          exact long?_of_room h ⟨h1, h2, h3⟩ room

private theorem widenedLength?_eq_some {op : UInt8} (h : widenedLength? op.toNat = some n) :
    n = if op = 0x84 then 6 else 4 := by
  have same : op.toNat = 0x84 ↔ op = 0x84 := UInt8.toNat_inj (b := 0x84)
  unfold widenedLength? at h
  by_cases increment : op = 0x84
  · rw [if_pos (same.2 increment)] at h
    cases h
    rw [if_pos increment]
  · rw [if_neg (mt same.1 increment)] at h
    rw [if_neg increment]
    split at h
    · cases h
      rfl
    · cases h

private theorem toNat_ne {op k : UInt8} (h : op ≠ k) : op.toNat ≠ k.toNat :=
  fun he => h (UInt8.toNat_inj.1 he)

private theorem announced?_of_decode? {i : Located} (h : decode? code b = some i) :
    announced? code b = some i.length ∧ b + i.length ≤ code.size := by
  rcases decode?_cases h with ⟨op, index, instruction, first, second, read, room, rfl⟩ |
    ⟨op, length, instruction, plain, first, read, room, rfl⟩
  · obtain ⟨n, hn⟩ := (widened?_isSome index).1 (Option.isSome_of_eq_some read)
    refine ⟨?_, fits?_eq_some.1 room⟩
    simp only [announced?, first, second, hn, if_true, Option.bind_eq_bind, Option.bind_some]
    rw [widenedLength?_eq_some hn]
  · refine ⟨?_, fits?_eq_some.1 room⟩
    simp only [announced?, first, Option.bind_eq_bind, Option.bind_some]
    rw [if_neg plain]
    by_cases haa : op = 0xaa
    · subst haa
      exact (tableSwitch?_length read).1
    · by_cases hab : op = 0xab
      · subst hab
        exact (lookupSwitch?_length read).1
      · rw [if_neg (not_or.2 ⟨haa, hab⟩)]
        exact operands?_length (UInt8.toNat_lt op) (toNat_ne haa) (toNat_ne hab) read

private theorem operands?_of_announced {op : UInt8} (plain : op ≠ 0xc4)
    (h : (if op = 0xaa ∨ op = 0xab then switchSize? code b op.toNat else fixedLength? op.toNat) =
      some n) (room : b + n ≤ code.size) : ∃ i, operands? code b op.toNat = some (i, n) := by
  by_cases haa : op = 0xaa
  · subst haa
    exact tableSwitch?_of_room h room
  · by_cases hab : op = 0xab
    · subst hab
      exact lookupSwitch?_of_room h room
    · rw [if_neg (not_or.2 ⟨haa, hab⟩)] at h
      exact operands?_of_room (UInt8.toNat_lt op) (toNat_ne haa) (toNat_ne hab) h room

private theorem decode?_of_announced (h : announced? code b = some n) (room : b + n ≤ code.size) :
    ∃ i, decode? code b = some i ∧ i.length = n := by
  simp only [announced?, Option.bind_eq_bind] at h
  obtain ⟨first, hfirst, h⟩ := Option.bind_eq_some_iff.1 h
  simp only [decode?, hfirst, Option.bind_eq_bind, Option.bind_some]
  split at h
  · next wide =>
    obtain ⟨op, hop, h⟩ := Option.bind_eq_some_iff.1 h
    have length := widenedLength?_eq_some h
    have four : 4 ≤ n := by
      rw [length]
      split <;> decide
    obtain ⟨index, hindex⟩ := wordAt?_of_room (show b + 2 + 2 ≤ code.size by omega)
    obtain ⟨i, hi⟩ := Option.isSome_iff_exists.1 ((widened?_isSome index).2 ⟨n, h⟩)
    rw [if_pos wide, hop, Option.bind_some, hindex, Option.bind_some, hi, Option.bind_some,
      ← length, fits?_of_room room]
    exact ⟨_, rfl, rfl⟩
  · next plain =>
    obtain ⟨i, hi⟩ := operands?_of_announced plain h room
    rw [if_neg plain, hi, Option.bind_some]
    dsimp only
    rw [fits?_of_room room]
    exact ⟨_, rfl, rfl⟩

/-- The instruction at an offset is read exactly if the length that its header announces fits into
the code, and that is its length: no operand lies outside. -/
theorem decode?_length_iff :
    (∃ i, decode? code b = some i ∧ i.length = n) ↔
      announced? code b = some n ∧ b + n ≤ code.size := by
  constructor
  · rintro ⟨i, h, rfl⟩
    exact announced?_of_decode? h
  · rintro ⟨h, room⟩
    exact decode?_of_announced h room

/-- An instruction ends within the code. -/
theorem next_le_size {i : Located} (h : decode? code b = some i) : i.next ≤ code.size := by
  rw [Located.next, decode?_offset h]
  exact (decode?_length_iff.1 ⟨i, h, rfl⟩).2

/-- What code can hold: only three opcodes belong to subroutines, and a table switch has no more
keys than its length leaves room for. -/
def isEncodable : Instruction → Bool
  | subroutine opcode _ => opcode = 0xa8 || opcode = 0xa9 || opcode = 0xc9
  | switch ⟨_, .table low high, _⟩ => high - low < 0x7ffffffe
  | _ => true

private theorem bare?_encodable : ∀ op < 256, (bare? op).all isEncodable := by decide +kernel

private theorem withByte?_encodable (x : UInt8) : (withByte? op x).all isEncodable := by
  simp [withByte?, apply_ite (Option.all isEncodable), isEncodable]

private theorem withWord?_encodable (w : UInt16) : (withWord? b op w).all isEncodable := by
  simp [withWord?, apply_ite (Option.all isEncodable), isEncodable]

private theorem widened?_encodable (index : UInt16) : (widened? op index).all isEncodable := by
  simp [widened?, apply_ite (Option.all isEncodable), isEncodable]

private theorem operands?_encodable (hop : op < 256) (h : operands? code b op = some (i, n)) :
    i.isEncodable := by
  have all {x : Option Instruction} (hx : x.all isEncodable) (hi : x = some i) : i.isEncodable := by
    rwa [hi] at hx
  rcases operands?_cases h with ⟨_, _, _, rfl⟩ | ⟨_, table⟩ | ⟨_, lookup⟩ | ⟨_, one⟩ |
    ⟨_, x, two⟩ | ⟨_, w, three⟩ | more
  · rfl
  · obtain ⟨low, high, _, _, _, _, length, _, rfl⟩ := tableSwitch?_cases table
    obtain ⟨_, _, _⟩ := switchLength?_eq_some_iff.1 length
    rw [isEncodable, decide_eq_true_eq]
    omega
  · obtain ⟨_, _, _, _, _, _, _, rfl⟩ := lookupSwitch?_cases lookup
    rfl
  · exact all (bare?_encodable op hop) one
  · exact all (withByte?_encodable x) two
  · exact all (withWord?_encodable w) three
  · rcases long?_cases more with ⟨_, _, _, _, _, rfl⟩ | ⟨_, _, _, _, _, rfl⟩ |
      ⟨_, _, _, _, rfl⟩ | ⟨_, _, _, rfl⟩ | ⟨_, _, rfl⟩
    all_goals rfl

theorem decode?_encodable {i : Located} (h : decode? code b = some i) :
    i.instruction.isEncodable := by
  rcases decode?_cases h with ⟨op, index, _, _, _, read, _, rfl⟩ | ⟨op, _, _, _, _, read, _, rfl⟩
  · have all : (widened? op.toNat index).all isEncodable := widened?_encodable index
    rwa [read] at all
  · exact operands?_encodable (UInt8.toNat_lt op) read

end ClassVerifier.Instruction
