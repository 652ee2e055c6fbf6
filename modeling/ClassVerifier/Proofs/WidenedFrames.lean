import ClassVerifier.Proofs.Simulation

/-! Frames with more room. A frame with more locals, none of them usable, and with room for more
operands simulates the frame it comes from: whatever fits there fits here, and what is written at
the end of the locals reaches no further. -/
namespace ClassVerifier.Frame
variable {r : Resolver} {f g : Frame} {moreLocals moreStack : Nat}

/-- The frame with so many more locals, all of them unusable, and room for so many more operands. -/
def widened (moreLocals moreStack : Nat) (f : Frame) : Frame :=
  { f with
    maxLocals := f.maxLocals + moreLocals
    maxStack := f.maxStack + moreStack
    locals := f.locals ++ Array.replicate moreLocals .top }

section
variable {locals : Array SlotType} {index : Nat} {types : List SlotType}

private theorem getElem?_more {k : Nat} {t : SlotType} (h : locals[k]? = some t) :
    (locals ++ Array.replicate moreLocals SlotType.top)[k]? = some t := by
  rw [Array.getElem?_append_left (Array.getElem?_eq_some_iff.1 h).1, h]

/-- Where no local is, there is none that could be used. -/
private theorem getD_more (k : Nat) :
    (locals ++ Array.replicate moreLocals SlotType.top).getD k .top = locals.getD k .top := by
  rw [Array.getD_eq_getD_getElem?, Array.getD_eq_getD_getElem?]
  rcases Nat.lt_or_ge k locals.size with inside | beyond
  · rw [Array.getElem?_append_left inside]
  · rw [Array.getElem?_append_right beyond, Array.getElem?_eq_none beyond, Array.getElem?_replicate]
    split <;> rfl

/-- A write that fits into the locals does the same in front of more locals. -/
private theorem overwrite_more (room : index + types.length ≤ locals.size) :
    overwrite (locals ++ Array.replicate moreLocals SlotType.top) index types =
      overwrite locals index types ++ Array.replicate moreLocals .top := by
  have room' : index + types.length ≤ (locals ++ Array.replicate moreLocals SlotType.top).size := by
    rw [Array.size_append]
    omega
  apply Array.ext_getElem?
  intro k
  rw [getElem?_overwrite_eq room']
  simp only [Spoiled, getD_more]
  rcases Nat.lt_or_ge k locals.size with inside | beyond
  · have inside' : k < (overwrite locals index types).size := by rwa [overwrite_size]
    rw [Array.getElem?_append_left inside, Array.getElem?_append_left inside',
      getElem?_overwrite_eq room]
    rfl
  · have beyond' : (overwrite locals index types).size ≤ k := by rwa [overwrite_size]
    rw [Array.getElem?_append_right beyond, Array.getElem?_append_right beyond', overwrite_size,
      if_neg (by omega), Array.getElem?_replicate]
    split <;> split <;> rfl

end

theorem usedLocals_widened (used : f.used ≤ f.locals.size) :
    (f.widened moreLocals moreStack).usedLocals = f.usedLocals := by
  rw [usedLocals, usedLocals, Array.toList_extract, Array.toList_extract,
    List.extract_eq_take_drop, List.extract_eq_take_drop]
  simp only [widened, Array.toList_append, Nat.sub_zero, List.drop_zero]
  exact List.take_append_of_le_length used

/-- What flows goes on to flow if both frames get the same room. -/
theorem Flows.widened (h : f.Flows r g) :
    (f.widened moreLocals moreStack).Flows r (g.widened moreLocals moreStack) := by
  obtain ⟨⟨maxLocals, depth⟩, ⟨size, size'⟩, locals, stack, pending⟩ := flows_iff.1 h
  have larger (f : Frame) : f.locals.size ≤ (f.widened moreLocals moreStack).locals.size :=
    Array.size_append ▸ Nat.le_add_right _ _
  refine flows_iff.2 ⟨⟨congrArg (· + moreLocals) maxLocals, depth⟩,
    ⟨Nat.le_trans size (larger f), Nat.le_trans size' (larger g)⟩, fun k s t used hs ht => ?_,
    stack, pending⟩
  have hs' := Array.getElem?_eq_getElem (Nat.lt_of_lt_of_le used size)
  have ht' := Array.getElem?_eq_getElem (Nat.lt_of_lt_of_le used size')
  cases (getElem?_more hs').symm.trans hs
  cases (getElem?_more ht').symm.trans ht
  exact locals k _ _ used hs' ht'

theorem simulation_widened : Simulation r Eq fun f g => f = g.widened moreLocals moreStack where
  toSimulation := SlotType.simulation_eq
  offset_eq := by rintro _ _ rfl; rfl
  thisPending := by rintro _ _ rfl pending; exact pending
  push := by
    rintro _ g t _ rfl rfl g' pushed
    refine ⟨g'.widened moreLocals moreStack, ?_, rfl⟩
    unfold push at pushed ⊢
    split at pushed
    · next room =>
      cases pushed
      exact if_pos (Nat.lt_add_right moreStack room)
    · cases pushed
  pop? := by
    rintro _ g t rest rfl top
    exact ⟨t, rest, top, rfl, rfl⟩
  load := by
    rintro _ g index expected rfl _ ⟨t, g'⟩ read
    obtain ⟨room, ⟨held, accepted⟩, rfl⟩ := load_ok_iff.1 read
    refine ⟨(t, _), load_ok_iff.2 ⟨?_, ⟨getElem?_more held, accepted⟩, rfl⟩, ⟨rfl, rfl⟩, accepted⟩
    exact Nat.lt_add_right moreLocals room
  loadPair := by
    rintro _ g index first second rfl _ _ _ read
    obtain ⟨inside, ⟨s, hs, accepted⟩, t, ht, accepted'⟩ := loadPair_ok_iff.1 read
    exact ⟨(), loadPair_ok_iff.2 ⟨inside, ⟨s, getElem?_more hs, accepted⟩, t, getElem?_more ht,
      accepted'⟩, trivial⟩
  store := by
    rintro _ g t _ index rfl rfl _ g' stored
    obtain ⟨room, size, rfl⟩ := store_ok_iff.1 stored
    refine ⟨_, store_ok_iff.2 ⟨?_, ?_, rfl⟩, ?_⟩
    · exact Nat.le_add_right_of_le room
    · exact Nat.le_trans size (Array.size_append ▸ Nat.le_add_right _ _)
    · simp only [widened, overwrite_more size]
  replaceAll := by
    rintro _ g old name rfl uninitialized
    have usable : SlotType.top ≠ old := by
      rintro rfl
      cases uninitialized
    rw [replaceAll, replaceAll, widened, widened, Array.map_append, Array.map_replicate,
      if_neg usable]
  inHandler := by rintro _ g _ rfl; rfl
  at_offset := by rintro _ g _ rfl; rfl

end ClassVerifier.Frame
