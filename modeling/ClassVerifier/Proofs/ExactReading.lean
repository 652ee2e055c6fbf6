import ClassVerifier.StackMap.Decode

/-! What a reader of bytes takes, and that it takes no notice of what comes behind. A payload of
recorded frames therefore shows by itself where it ends. -/
namespace ClassVerifier

/-- Layouts of one size take that size as many times as there are items. -/
theorem length_flatMap_of_eq {α : Type} {items : List α} {layout : α → List UInt8} {size : Nat}
    (sizes : ∀ a, (layout a).length = size) :
    (items.flatMap layout).length = items.length * size := by
  rw [List.length_flatMap, funext sizes, List.map_const', List.sum_replicate_nat]

namespace Reader
variable {ε α β : Type}

/-- A reading that succeeds would have been the same with more bytes to follow. -/
def Local (r : Reader ε α) : Prop :=
  ∀ ⦃bytes a rest⦄, r bytes = .ok (a, rest) →
    ∀ more, r (bytes ++ more) = .ok (a, rest ++ more)

namespace Local

theorem pure (a : α) : Local (Pure.pure a : Reader ε α) := by
  rintro bytes _ _ ⟨rfl⟩ more
  rfl

theorem fail (e : ε) : Local (Reader.fail e : Reader ε α) := nofun

theorem bind {x : Reader ε α} {f : α → Reader ε β} (hx : Local x) (hf : ∀ a, Local (f a)) :
    Local (x >>= f) := by
  intro bytes b rest h more
  obtain ⟨a, middle, ha, h⟩ := bind_eq_ok.1 h
  exact bind_eq_ok.2 ⟨a, middle ++ more, hx ha more, hf a h more⟩

theorem ite {p : Prop} [Decidable p] {x y : Reader ε α} (hx : Local x) (hy : Local y) :
    Local (if p then x else y) := by
  split
  · exact hx
  · exact hy

theorem byte (short : ε) : Local (Reader.byte short) := by
  intro bytes b rest h more
  rw [byte_eq_ok] at h ⊢
  rw [h, List.cons_append]

theorem word (short : ε) : Local (Reader.word short) := by
  intro bytes w rest h more
  match bytes with
  | high :: low :: rest =>
    cases h
    rfl

end Local

/-- The bytes are read as the value, whatever follows them. -/
def Reads (r : Reader ε α) (bytes : List UInt8) (a : α) : Prop :=
  ∀ rest, r (bytes ++ rest) = .ok (a, rest)

/-- A number in two bytes, the high one first. -/
def wordBytes (w : UInt16) : List UInt8 := [(w >>> 8).toUInt8, w.toUInt8]

/-- The two bytes of a number make it up again. -/
theorem joined_wordBytes (w : UInt16) :
    (w >>> 8).toUInt8.toUInt16 <<< 8 ||| w.toUInt8.toUInt16 = w := by
  have whole := w.toNat_lt
  have high : w.toNat / 2 ^ 8 < 2 ^ 8 := by omega
  have low : w.toNat % 2 ^ 8 < 2 ^ 8 := Nat.mod_lt _ (by decide)
  apply UInt16.toNat.inj
  simp only [UInt16.toNat_or, UInt16.toNat_shiftLeft, UInt16.toNat_shiftRight,
    UInt8.toNat_toUInt16, UInt16.toNat_toUInt8]
  change (w.toNat >>> 8 % 2 ^ 8) <<< 8 % 2 ^ 16 ||| w.toNat % 2 ^ 8 = w.toNat
  rw [Nat.shiftRight_eq_div_pow, Nat.mod_eq_of_lt high, Nat.mod_eq_of_lt,
    ← Nat.shiftLeft_add_eq_or_of_lt low, Nat.shiftLeft_eq, Nat.div_add_mod']
  rw [Nat.shiftLeft_eq]
  omega

namespace Reads
variable {x : Reader ε α} {f : α → Reader ε β} {a : α} {b : β} {xs ys : List UInt8}

theorem pure (a : α) : Reads (Pure.pure a : Reader ε α) [] a := fun _ => rfl

theorem bind (hx : Reads x xs a) (hf : Reads (f a) ys b) : Reads (x >>= f) (xs ++ ys) b := by
  intro rest
  rw [List.append_assoc]
  exact bind_eq_ok.2 ⟨a, ys ++ rest, hx _, hf rest⟩

theorem bind_last (hx : Reads x xs a) (hf : Reads (f a) [] b) : Reads (x >>= f) xs b :=
  xs.append_nil ▸ hx.bind hf

theorem byte (short : ε) (b : UInt8) : Reads (Reader.byte short) [b] b := fun _ => rfl

theorem word (short : ε) (w : UInt16) : Reads (Reader.word short) (wordBytes w) w := by
  intro rest
  simp only [Reader.word, wordBytes, List.cons_append, List.nil_append, joined_wordBytes]

end Reads
end Reader

namespace StackMap
open Reader (Local)
variable {s : Surroundings} {initial : Frame} {t : StackMap}

private theorem local_slotType (s : Surroundings) : Local (slotType s) := by
  refine .bind (.byte _) fun code => ?_
  split
  case h_8 =>
    refine .bind (.word _) fun index => ?_
    cases s.pool.className index with
    | ok name => exact .pure _
    | error cause => exact .fail _
  case h_9 =>
    refine .bind (.word _) fun offset => ?_
    cases s.listing.allocation? offset.toNat with
    | some index => exact .pure _
    | none => exact .fail _
  case h_10 => exact .fail _
  all_goals exact .pure _

private theorem local_slots (s : Surroundings) (excess : Defect) (n room : Nat)
    (before : List SlotType) : Local (slots s excess n room before) := by
  induction n generalizing room before with
  | zero => exact .pure _
  | succ n ih => exact .bind (local_slotType s) fun type => .ite (.fail _) (ih _ _)

private theorem local_contents (s : Surroundings) (previous : Frame) (code : UInt8) :
    Local (contents s previous code) := by
  refine .ite (.pure _) (.ite ?_ (.ite ?_ (.ite ?_ ?_)))
  · exact .bind (local_slots _ _ _ _ _) fun _ => .pure _
  · dsimp only
    split
    · exact .pure _
    · exact .fail _
    · exact .fail _
  · exact .bind (local_slots _ _ _ _ _) fun _ => .pure _
  · refine .bind (.word _) fun count => .bind (local_slots _ _ _ _ _) fun locals => ?_
    exact .bind (.word _) fun depth => .bind (local_slots _ _ _ _ _) fun stack => .pure _

private theorem local_frame (s : Surroundings) (previous : Frame) (first : Bool) :
    Local (frame s previous first) := by
  refine .bind (.byte _) fun code => .bind ?_ fun delta => .ite (.fail _) ?_
  · exact .ite (.pure _) (.ite (.pure _) (.ite (.fail _) (.bind (.word _) fun _ => .pure _)))
  · exact .bind (local_contents s previous code) fun _ => .pure _

/-- The next frame is read first and the others behind it. -/
theorem framesFrom_succ (n : Nat) (before : Array Frame) :
    framesFrom s initial (n + 1) before =
      frame s (before.back?.getD initial) before.isEmpty >>=
        fun f => framesFrom s initial n (before.push f) := by
  funext bytes
  simp only [framesFrom, bind, Reader.bind]
  rcases frame s (before.back?.getD initial) before.isEmpty bytes with _ | ⟨f, rest⟩ <;> rfl

private theorem local_framesFrom (s : Surroundings) (initial : Frame) (n : Nat)
    (before : Array Frame) : Local (framesFrom s initial n before) := by
  induction n generalizing before with
  | zero => exact .pure before
  | succ n ih =>
    rw [framesFrom_succ]
    exact .bind (local_frame _ _ _) fun f => ih _

private theorem local_allFrames (s : Surroundings) (initial : Frame) :
    Local (allFrames s initial) :=
  .bind (.word _) fun _ => local_framesFrom _ _ _ _

theorem ofPayload_some_ok {payload : List UInt8} :
    ofPayload s initial (some payload) = .ok t ↔
      allFrames s initial payload = .ok (t.frames, []) := by
  simp only [ofPayload]
  constructor
  · intro h
    split at h
    · next all ha =>
      cases h
      exact ha
    · cases h
    · cases h
  · intro h
    rw [h]

/-- Bytes behind an accepted payload are a defect. -/
theorem ofPayload_append {payload extra : List UInt8}
    (h : ofPayload s initial (some payload) = .ok t) (some : extra ≠ []) :
    ofPayload s initial (.some (payload ++ extra)) = .error Defect.wrongSize.fault := by
  obtain ⟨b, extra, rfl⟩ := List.exists_cons_of_ne_nil some
  have longer := local_allFrames s initial (ofPayload_some_ok.1 h) (b :: extra)
  simp only [ofPayload, longer, List.nil_append]

end StackMap
end ClassVerifier
