import ClassVerifier.Walk

/-! Where instructions start. The listing of a body holds its instructions without gaps from the
first byte on, and finds each of them at its own offset. -/
namespace ClassVerifier.Listing

/-- The instructions follow each other without gaps from the offset on to the end of the code. -/
inductive Covers (code : Array UInt8) : Nat → List Located → Prop
  | done {b : Nat} (h : code.size ≤ b) : Covers code b []
  | cons {b : Nat} {i : Located} {rest : List Located} (h : b < code.size)
      (decoded : Instruction.decode? code b = some i) (follow : Covers code i.next rest) :
      Covers code b (i :: rest)

variable {code : Array UInt8} {b : Nat} {i : Located} {is : List Located} {l : Listing}

namespace Covers

theorem mem (h : Covers code b is) (hi : i ∈ is) :
    Instruction.decode? code i.offset = some i ∧ b ≤ i.offset ∧ i.offset < code.size := by
  induction h with
  | done h => cases hi
  | cons h decoded follow ih =>
    have ho := Instruction.decode?_offset decoded
    have hn := Instruction.lt_next_of_decode? decoded
    rcases List.mem_cons.1 hi with rfl | hi
    · exact ⟨ho ▸ decoded, Nat.le_of_eq ho.symm, ho ▸ h⟩
    · obtain ⟨hd, hle, hlt⟩ := ih hi
      exact ⟨hd, by omega, hlt⟩

theorem head_offset (h : Covers code b is) (hi : i ∈ is.head?) : i.offset = b := by
  cases h with
  | done => cases hi
  | cons h decoded follow =>
    cases hi
    exact Instruction.decode?_offset decoded

/-- The first instruction stands at the offset itself, unless the code is at its end. -/
theorem first (h : Covers code b is) : code.size ≤ b ∨ ∃ i ∈ is, i.offset = b := by
  cases h with
  | done past => exact .inl past
  | cons inside decoded follow =>
    exact .inr ⟨_, List.mem_cons_self, Instruction.decode?_offset decoded⟩

theorem ascending (h : Covers code b is) : is.Pairwise (·.offset < ·.offset) := by
  induction h with
  | done h => exact .nil
  | cons h decoded follow ih =>
    refine .cons (fun j hj => ?_) ih
    have ho := Instruction.decode?_offset decoded
    have hn := Instruction.lt_next_of_decode? decoded
    have hj := (follow.mem hj).2.1
    omega

/-- The code determines the instructions from an offset on. -/
theorem unique {js : List Located} (h : Covers code b is) (h' : Covers code b js) : is = js := by
  induction h generalizing js with
  | done past =>
    cases h' with
    | done _ => rfl
    | cons inside _ _ => exact absurd inside (Nat.not_lt.2 past)
  | cons inside decoded follow ih =>
    cases h' with
    | done past => exact absurd inside (Nat.not_lt.2 past)
    | cons _ read follow' =>
      cases decoded.symm.trans read
      rw [ih follow']

/-- No instruction starts inside another one. -/
theorem next_le {j : Located} (h : Covers code b is) (hi : i ∈ is) (hj : j ∈ is)
    (behind : i.offset < j.offset) : i.next ≤ j.offset := by
  induction h with
  | done past => cases hi
  | cons inside decoded follow ih =>
    have here := Instruction.decode?_offset decoded
    have next := Instruction.lt_next_of_decode? decoded
    rcases List.mem_cons.1 hi with rfl | later
    · rcases List.mem_cons.1 hj with rfl | ahead
      · exact absurd behind (Nat.lt_irrefl _)
      · exact (follow.mem ahead).2.1
    · have := (follow.mem later).2.1
      rcases List.mem_cons.1 hj with rfl | ahead
      · omega
      · exact ih later ahead

/-- The next instruction follows at once, unless the code is at its end. -/
theorem next (h : Covers code b is) (hi : i ∈ is) :
    code.size ≤ i.next ∨ ∃ j ∈ is, j.offset = i.next := by
  induction h with
  | done h => cases hi
  | cons h decoded follow ih =>
    rcases List.mem_cons.1 hi with rfl | hi
    · rcases follow.first with behind | ⟨j, hj, he⟩
      · exact .inl behind
      · exact .inr ⟨j, List.mem_cons_of_mem _ hj, he⟩
    · rcases ih hi with behind | ⟨j, hj, he⟩
      · exact .inl behind
      · exact .inr ⟨j, List.mem_cons_of_mem _ hj, he⟩

end Covers

private theorem scan_covers {before body : List Located}
    (h : scan code b before = (body, none)) :
    ∃ rest, body = before.reverse ++ rest ∧ Covers code b rest := by
  fun_induction scan code b before with
  | case1 b before hb i hd ih =>
    obtain ⟨rest, he, hc⟩ := ih h
    refine ⟨i :: rest, ?_, .cons hb hd hc⟩
    rw [he, List.reverse_cons, List.append_assoc, List.singleton_append]
  | case2 b before hb hd => cases h
  | case3 b before hb =>
    cases h
    exact ⟨[], (List.append_nil _).symm, .done (Nat.le_of_not_lt hb)⟩

private theorem getElem?_placeAll {starts : Array (Option Located)} {k : Nat}
    (h : ∀ j ∈ is, j.offset ≠ k) : (is.foldl place starts)[k]? = starts[k]? := by
  induction is generalizing starts with
  | nil => rfl
  | cons j is ih =>
    obtain ⟨hj, h⟩ := List.forall_mem_cons.1 h
    rw [List.foldl_cons, ih h]
    exact Array.getElem?_setIfInBounds_ne hj

private theorem getElem?_placeAll_mem {starts : Array (Option Located)}
    (ascending : is.Pairwise (·.offset < ·.offset)) (inside : ∀ j ∈ is, j.offset < starts.size)
    (hi : i ∈ is) : (is.foldl place starts)[i.offset]? = some (some i) := by
  induction is generalizing starts with
  | nil => cases hi
  | cons j is ih =>
    obtain ⟨hj, ascending⟩ := List.pairwise_cons.1 ascending
    obtain ⟨hin, inside⟩ := List.forall_mem_cons.1 inside
    rcases List.mem_cons.1 hi with rfl | hi
    · rw [List.foldl_cons, getElem?_placeAll fun k hk => Nat.ne_of_gt (hj k hk)]
      exact Array.getElem?_setIfInBounds_self_of_lt hin
    · have size : (place starts j).size = starts.size := Array.size_setIfInBounds
      exact ih ascending (by rwa [size]) hi

private theorem ofCode_ok (h : ofCode code = .ok l) : Covers code 0 l.body ∧
    l = ⟨code.size, l.body, l.body.foldl place (Array.replicate code.size none)⟩ := by
  unfold ofCode at h
  split at h
  · cases h
  · next body hs =>
    obtain ⟨rest, rfl, covers⟩ := scan_covers hs
    cases h
    exact ⟨covers, rfl⟩

theorem scan_ofCode (h : ofCode code = .ok l) : scan code 0 = (l.body, none) := by
  unfold ofCode at h
  split at h
  · cases h
  · next body hs =>
    cases h
    exact hs

theorem covers_ofCode (h : ofCode code = .ok l) : Covers code 0 l.body := (ofCode_ok h).1

theorem length_ofCode (h : ofCode code = .ok l) : l.length = code.size := by
  rw [(ofCode_ok h).2]

/-- Looking up an offset finds the instruction that starts there. -/
theorem at?_eq_some_iff (h : ofCode code = .ok l) :
    l.at? b = some i ↔ i ∈ l.body ∧ i.offset = b := by
  obtain ⟨covers, he⟩ := ofCode_ok h
  have inside (start : Option Located) :
      ∀ j ∈ l.body, j.offset < (Array.replicate code.size start).size := by
    intro j hj
    rw [Array.size_replicate]
    exact (covers.mem hj).2.2
  have found {j : Located} (hj : j ∈ l.body) : l.starts[j.offset]? = some (some j) := by
    rw [he]
    exact getElem?_placeAll_mem covers.ascending (inside none) hj
  unfold at?
  constructor
  · intro ha
    by_cases hb : ∃ j ∈ l.body, j.offset = b
    · obtain ⟨j, hj, rfl⟩ := hb
      rw [found hj] at ha
      cases ha
      exact ⟨hj, rfl⟩
    · have none : l.starts[b]? = (Array.replicate code.size none)[b]? := by
        rw [he]
        exact getElem?_placeAll fun j hj hjb => hb ⟨j, hj, hjb⟩
      rw [none, Array.getElem?_replicate] at ha
      split at ha <;> cases ha
  · rintro ⟨hi, rfl⟩
    rw [found hi]
    rfl

/-- What is found at an offset is what is read there. -/
theorem decode?_of_at? (h : ofCode code = .ok l) (found : l.at? b = some i) :
    Instruction.decode? code b = some i := by
  obtain ⟨mem, rfl⟩ := (at?_eq_some_iff h).1 found
  exact ((covers_ofCode h).mem mem).1

theorem isStart_iff (h : ofCode code = .ok l) :
    l.isStart b ↔ ∃ i ∈ l.body, i.offset = b := by
  unfold isStart
  simp only [Option.isSome_iff_exists, at?_eq_some_iff h]

/-- Where no instruction starts behind another one, the code is at its end. -/
theorem at?_next_eq_none_iff (h : ofCode code = .ok l) (hi : i ∈ l.body) :
    l.at? i.next = none ↔ l.length ≤ i.next := by
  have covers := covers_ofCode h
  rw [length_ofCode h, Option.eq_none_iff_forall_ne_some]
  constructor
  · intro free
    rcases covers.next hi with behind | ⟨j, hj, he⟩
    · exact behind
    · exact absurd ((at?_eq_some_iff h).2 ⟨hj, he⟩) (free j)
  · intro behind j found
    obtain ⟨hj, he⟩ := (at?_eq_some_iff h).1 found
    have inside := (covers.mem hj).2.2
    omega

theorem allocation?_eq_some {index : UInt16} :
    l.allocation? b = some index ↔ ∃ i, l.at? b = some i ∧ i.instruction = .new index := by
  unfold allocation?
  split
  · next found => simp [found]
  · next other =>
    refine iff_of_false nofun ?_
    rintro ⟨⟨offset, opcode, length, instruction⟩, found, rfl⟩
    exact other _ _ _ _ found

/-- No two instructions start at the same offset. -/
theorem eq_of_offset_eq (h : ofCode code = .ok l) {j : Located} (hi : i ∈ l.body)
    (hj : j ∈ l.body) (he : i.offset = j.offset) : i = j :=
  Option.some.inj (((at?_eq_some_iff h).2 ⟨hi, he⟩).symm.trans ((at?_eq_some_iff h).2 ⟨hj, rfl⟩))

end ClassVerifier.Listing

namespace ClassVerifier.Code
variable {code : Code} {l : Listing} {cause : Cause}

theorem listing_ok : code.listing = .ok l ↔ Listing.ofCode code.bytes = .ok l := by
  unfold listing
  cases Listing.ofCode code.bytes <;> simp

/-- The only cause for which there is no listing is the place that the scan stops at. -/
theorem listing_error : code.listing = .error cause ↔
    ∃ b, cause = .illegalInstruction b ∧ Listing.ofCode code.bytes = .error b := by
  unfold listing
  cases Listing.ofCode code.bytes <;> simp [eq_comm]

end ClassVerifier.Code
