import ClassVerifier.Proofs.DecodedFrames
import ClassVerifier.Proofs.SearchableFrames

/-! The same frames with each of them written out in full. Whatever forms a payload makes use of, to
write in full what was read from it and to read that again leads back to the same table. -/
namespace ClassVerifier

namespace ConstantPool
variable {pool : ConstantPool} {index : UInt16} {name : String}

/-- The first index of a class of this name, if there is one. -/
def classIndex (pool : ConstantPool) (name : String) : UInt16 :=
  .ofNat (((List.range (pool.slots.size + 1)).find? fun n =>
    pool.className (.ofNat n) = .ok name).getD 0)

private theorem lt_of_className (h : pool.className index = .ok name) :
    index.toNat < pool.slots.size + 1 := by
  obtain ⟨c, hc, _⟩ := except_bind_ok.1 h
  unfold entry get? at hc
  split at hc
  · next found =>
    split at found
    · cases found
    · have := (Array.getElem?_eq_some_iff.1 (Option.join_eq_some_iff.1 found)).1
      omega
  · cases hc

/-- A class of the name is found if there is one. -/
theorem className_classIndex (h : pool.className index = .ok name) :
    pool.className (pool.classIndex name) = .ok name := by
  unfold classIndex
  cases found : (List.range (pool.slots.size + 1)).find? fun n =>
      pool.className (.ofNat n) = .ok name with
  | some n => simpa using List.find?_some found
  | none =>
    have none := List.find?_eq_none.1 found index.toNat (List.mem_range.2 (lt_of_className h))
    rw [UInt16.ofNat_toNat] at none
    exact absurd (decide_eq_true h) none

end ConstantPool

namespace StackMap
open Reader (Reads wordBytes)
variable {s : Surroundings} {f previous initial : Frame} {t : StackMap} {bytes rest : List UInt8}
  {method : Method} {name : String} {result : SlotType} {indexOf : String → UInt16}

/-- A type as an item, a reference by the index for its name. Second slots have no item, nor have
the types that are only expected of slots. -/
def item (indexOf : String → UInt16) : SlotType → List UInt8
  | .top => [0]
  | .integer => [1]
  | .float => [2]
  | .double => [3]
  | .long => [4]
  | .null => [5]
  | .uninitializedThis => [6]
  | .reference name => 7 :: wordBytes (indexOf name)
  | .uninitialized offset => 8 :: wordBytes (.ofNat offset)
  | .bogus | .longSecond | .doubleSecond | .anySingle | .anyDouble | .anyReference => []

/-- The first slots of the values. -/
def firstSlots (slots : List SlotType) : List SlotType := slots.filter (!·.isSecond)

/-- One item for each value, and their number in front. -/
def items (indexOf : String → UInt16) (slots : List SlotType) : List UInt8 :=
  wordBytes (.ofNat (firstSlots slots).length) ++ (firstSlots slots).flatMap (item indexOf)

/-- A frame with all of its locals and operands. -/
def fullFrame (indexOf : String → UInt16) (delta : Nat) (f : Frame) : List UInt8 :=
  255 :: (wordBytes (.ofNat delta) ++
    (items indexOf f.usedLocals ++ items indexOf f.operands))

/-- Frames that are counted from the given offset on, each from behind the one before it. -/
def fullFrames (indexOf : String → UInt16) : Nat → List Frame → List UInt8
  | _, [] => []
  | start, f :: fs =>
    fullFrame indexOf (f.offset - start) f ++ fullFrames indexOf (f.offset + 1) fs

/-- A payload for the frames of a table. -/
def fullPayload (indexOf : String → UInt16) (t : StackMap) : List UInt8 :=
  wordBytes (.ofNat t.frames.size) ++ fullFrames indexOf 0 t.frames.toList

/-- A type that is read again from its item. -/
structure Written (s : Surroundings) (indexOf : String → UInt16) (t : SlotType) : Prop where
  actual : t.isActual
  allocated : ∀ n, t = .uninitialized n → n < 65536 ∧ ∃ index, s.listing.allocation? n = some index
  named : ∀ name, t = .reference name → s.pool.className (indexOf name) = .ok name

private theorem toNat_word {n : Nat} (h : n < 65536) : (UInt16.ofNat n).toNat = n :=
  UInt16.toNat_ofNat_of_lt' h

private theorem reads_item {t : SlotType} (written : Written s indexOf t)
    (first : t.isSecond = false) : Reads (slotType s) (item indexOf t) t := by
  cases t with
  | top | integer | float | double | long | null | uninitializedThis =>
    exact .bind (.byte _ _) (.pure _)
  | reference name =>
    refine .bind (.byte _ 7) (.bind_last (.word _ (indexOf name)) ?_)
    rw [written.named name rfl]
    exact .pure _
  | uninitialized offset =>
    obtain ⟨near, index, found⟩ := written.allocated offset rfl
    refine .bind (.byte _ 8) (.bind_last (.word _ (.ofNat offset)) ?_)
    rw [toNat_word near, found]
    exact .pure _
  | longSecond | doubleSecond => cases first
  | bogus | anySingle | anyDouble | anyReference => cases written.actual

private theorem reads_slots {excess : Defect} {types before : List SlotType} {room : Nat}
    (written : ∀ t ∈ types, Written s indexOf t ∧ t.isSecond = false)
    (fits : (types.flatMap SlotType.slots).length ≤ room) :
    Reads (slots s excess types.length room before) (types.flatMap (item indexOf))
      ((types.flatMap SlotType.slots).reverse ++ before) := by
  induction types generalizing room before with
  | nil => exact .pure _
  | cons t types ih =>
    obtain ⟨⟨ht, first⟩, written⟩ := List.forall_mem_cons.1 written
    rw [List.flatMap_cons, List.length_append] at fits
    have others : Reads
        (slots s excess types.length (room - t.slots.length) (t.slots.reverse ++ before))
        (types.flatMap (item indexOf))
        ((types.flatMap SlotType.slots).reverse ++ (t.slots.reverse ++ before)) :=
      ih written (by omega)
    rw [List.flatMap_cons, List.flatMap_cons, List.reverse_append, List.append_assoc]
    refine .bind (reads_item ht first) ?_
    dsimp only
    rw [if_neg (by omega)]
    exact others

/-- Whole values consist of what belongs to their first slots. -/
private theorem flatMap_firstSlots {a : List SlotType} (h : Paired a) :
    (firstSlots a).flatMap SlotType.slots = a := by
  induction hn : a.length using Nat.strongRecOn generalizing a with
  | ind n ih =>
    rcases List.eq_nil_or_concat a with rfl | ⟨front, last, rfl⟩
    · rfl
    · rw [List.concat_eq_append] at h hn ⊢
      by_cases second : last.isSecond
      · obtain ⟨front, first, rfl, hs⟩ := h.concat_second second
        have whole : first.slots = [first, last] := by
          rw [SlotType.slots, hs, Option.toList_some]
        have starts : first.isSecond = false := by cases first <;> cases hs <;> rfl
        rw [List.append_assoc, List.singleton_append] at h hn ⊢
        have paired := h.of_append (whole ▸ .slots starts)
        have kept := ih front.length (by simp at hn; omega) paired rfl
        simp only [firstSlots, List.filter_append, List.flatMap_append] at kept ⊢
        simp [kept, starts, second, whole]
      · rw [Bool.not_eq_true] at second
        have whole := h.concat_not_second second
        have kept := ih front.length (by simp at hn; omega) (h.of_append (.singleton whole)) rfl
        simp only [firstSlots, List.filter_append, List.flatMap_append] at kept ⊢
        simp [kept, second, SlotType.slots, whole.1]

private theorem reads_firstSlots {excess : Defect} {a : List SlotType} {room : Nat}
    (paired : Paired a) (written : ∀ t ∈ a, Written s indexOf t) (fits : a.length ≤ room)
    (near : room < 65536) :
    Reads (slots s excess (UInt16.ofNat (firstSlots a).length).toNat room [])
      ((firstSlots a).flatMap (item indexOf)) a.reverse := by
  have fewer : (firstSlots a).length ≤ a.length := List.length_filter_le _ a
  have whole := flatMap_firstSlots paired
  have each : ∀ t ∈ firstSlots a, Written s indexOf t ∧ t.isSecond = false := by
    intro t ht
    obtain ⟨ht, first⟩ := List.mem_filter.1 ht
    exact ⟨written t ht, by simpa using first⟩
  have read : Reads (slots s excess (firstSlots a).length room [])
      ((firstSlots a).flatMap (item indexOf))
      (((firstSlots a).flatMap SlotType.slots).reverse ++ []) :=
    reads_slots each (whole.symm ▸ fits)
  rw [toNat_word (by omega)]
  rwa [whole, List.append_nil] at read

/-- A frame of the method that is as it would be read, with no allocation further on than two bytes
can say. -/
structure Encodes (s : Surroundings) (f : Frame) : Prop where
  admitted : s.Admits f
  represented : s.Represents f
  near : ∀ n, f.Holds (.uninitialized n) → n < 65536

/-- The index for each name of a held type leads to a class of that name. -/
def Indexed (pool : ConstantPool) (indexOf : String → UInt16) (f : Frame) : Prop :=
  ∀ name, f.Holds (.reference name) → pool.className (indexOf name) = .ok name

theorem Encodes.written (h : Encodes s f) (indexed : Indexed s.pool indexOf f) {u : SlotType}
    (held : f.Holds u) : Written s indexOf u where
  actual := (h.represented.knows held).actual
  allocated := by
    rintro n rfl
    exact ⟨h.near n held, h.represented.allocated n held⟩
  named := by
    rintro name rfl
    exact indexed name held

theorem encodes_entry
    (h : Frame.entry method (.reference name) s.maxLocals s.maxStack = .ok (f, result)) :
    Encodes s f where
  admitted := Surroundings.admits_entry h
  represented := Surroundings.represents_entry h
  near := by
    intro n held
    cases (Frame.holds_entry h rfl held).1

private theorem filled_of_regular (h : f.Regular) :
    Frame.padded f.maxLocals f.usedLocals = f.locals := by
  have size := h.size_eq
  have used := h.used_le
  have length := Frame.length_usedLocals h
  have front : f.usedLocals.toArray = f.locals.extract 0 f.used := Array.toArray_toList
  have extracted : (f.locals.extract 0 f.used).size = f.used := by
    rw [← front, List.size_toArray, length]
  rw [Frame.padded, List.take_of_length_le (by omega), length, front]
  apply Array.ext_getElem?
  intro k
  rcases Nat.lt_or_ge k f.used with hlt | hge
  · rw [Array.getElem?_append_left (by omega), Array.getElem?_extract, if_pos (by omega),
      Nat.zero_add]
  · rw [Array.getElem?_append_right (by omega), Array.getElem?_replicate, extracted]
    cases hk : f.locals[k]? with
    | none =>
      have := Array.getElem?_eq_none_iff.1 hk
      rw [if_neg (by omega)]
    | some u =>
      have := (Array.getElem?_eq_some_iff.1 hk).1
      rw [if_pos (by omega), h.unused k u hge hk]

private theorem reads_contents (h : Encodes s f) (indexed : Indexed s.pool indexOf f)
    (few : s.maxLocals < 65536) (shallow : s.maxStack < 65536) :
    Reads (contents s previous 255) (items indexOf f.usedLocals ++ items indexOf f.operands)
      (f.usedLocals, f.stack.slots, f.thisPending) := by
  have used : f.usedLocals.length ≤ s.maxLocals := by
    rw [Frame.length_usedLocals h.admitted.regular, ← h.admitted.maxLocals_eq]
    exact h.admitted.regular.used_le
  have deep : f.operands.length ≤ s.maxStack := by
    rw [Frame.operands, List.length_reverse, ← f.stack.depth_eq, ← h.represented.maxStack_eq]
    exact h.represented.wellFormed.fits
  have locals : Reads
      (localSlots s (UInt16.ofNat (firstSlots f.usedLocals).length).toNat s.maxLocals)
      ((firstSlots f.usedLocals).flatMap (item indexOf)) f.usedLocals.reverse :=
    reads_firstSlots h.represented.wellFormed.paired_usedLocals
      (fun t ht => h.written indexed (.inl (Frame.mem_locals_of_used ht))) used few
  have operands : Reads (stackSlots s (UInt16.ofNat (firstSlots f.operands).length).toNat)
      ((firstSlots f.operands).flatMap (item indexOf)) f.operands.reverse :=
    reads_firstSlots h.represented.wellFormed.operands_paired
      (fun t ht => h.written indexed (.inr (List.mem_reverse.1 ht))) deep shallow
  have pending : holdsReceiver f.usedLocals.reverse = f.thisPending := by
    rw [holdsReceiver, Bool.eq_iff_iff, decide_eq_true_eq, List.mem_reverse]
    exact h.admitted.pending_iff.symm
  rw [items, items, List.append_assoc]
  refine .bind (.word _ _) (.bind locals (.bind (.word _ _) (.bind_last operands ?_)))
  rw [List.reverse_reverse, Frame.operands, List.reverse_reverse, pending]
  exact .pure _

private theorem reads_frame {first : Bool} {delta : Nat} (h : Encodes s f)
    (indexed : Indexed s.pool indexOf f) (few : s.maxLocals < 65536)
    (shallow : s.maxStack < 65536) (start : s.listing.isStart f.offset) (near : delta < 65536)
    (offset : (if first then delta else previous.offset + delta + 1) = f.offset) :
    Reads (frame s previous first) (fullFrame indexOf delta f) f := by
  have delta : Reads (offsetDelta 255) (wordBytes (.ofNat delta)) delta := by
    refine .bind_last (.word _ _) ?_
    rw [toNat_word near]
    exact .pure _
  refine .bind (.byte _ 255) (.bind delta ?_)
  dsimp only
  rw [offset, start]
  refine .bind_last (reads_contents h indexed few shallow) ?_
  have same : (⟨f.offset, f.usedLocals.length, s.maxLocals, s.maxStack, f.thisPending,
      Frame.padded s.maxLocals f.usedLocals, .ofSlots f.stack.slots⟩ : Frame) = f := by
    have stack : Stack.ofSlots f.stack.slots = f.stack := Stack.ext rfl
    rw [Frame.length_usedLocals h.admitted.regular, ← h.admitted.maxLocals_eq,
      ← h.represented.maxStack_eq, filled_of_regular h.admitted.regular, stack]
  dsimp only
  rw [same]
  exact .pure f

/-- Whatever is read has the property. -/
def Yields {α : Type} (P : α → Prop) (x : FrameReader α) : Prop :=
  ∀ ⦃bytes a rest⦄, x bytes = .ok (a, rest) → P a

namespace Yields
variable {α β : Type} {P : α → Prop} {Q : β → Prop} {x y : FrameReader α}

theorem pure {a : α} (h : P a) : Yields P (Pure.pure a) := by
  rintro bytes _ _ ⟨rfl⟩
  exact h

theorem fail (fault : Fault) : Yields P (Reader.fail fault : FrameReader α) := nofun

theorem bind {f : α → FrameReader β} (hx : Yields P x) (hf : ∀ a, P a → Yields Q (f a)) :
    Yields Q (x >>= f) := by
  intro bytes b rest h
  obtain ⟨a, middle, ha, h⟩ := Reader.bind_eq_ok.1 h
  exact hf a (hx ha) h

theorem ite {p : Prop} [Decidable p] (hx : Yields P x) (hy : Yields P y) :
    Yields P (if p then x else y) := by
  split
  · exact hx
  · exact hy

theorem trivial (x : FrameReader α) : Yields (fun _ => True) x := fun _ _ _ _ => .intro

end Yields

/-- What is not initialized was allocated where two bytes can say. -/
private def Near (t : SlotType) : Prop := ∀ n, t = .uninitialized n → n < 65536

private theorem Near.slots {t : SlotType} (h : Near t) : ∀ u ∈ t.slots, Near u := by
  intro u hu
  rcases List.mem_cons.1 hu with rfl | hu
  · exact h
  · rintro n rfl
    cases t <;> simp [SlotType.second?] at hu

private theorem yields_slotType (s : Surroundings) : Yields Near (slotType s) := by
  refine .bind (.trivial _) fun code _ => ?_
  split
  case h_8 =>
    refine .bind (.trivial _) fun index _ => ?_
    cases s.pool.className index with
    | ok name => exact .pure nofun
    | error cause => exact .fail _
  case h_9 =>
    refine .bind (.trivial _) fun offset _ => ?_
    cases s.listing.allocation? offset.toNat with
    | some index =>
      apply Yields.pure
      rintro n ⟨rfl⟩
      exact offset.toNat_lt
    | none => exact .fail _
  case h_10 => exact .fail _
  all_goals exact .pure nofun

private theorem yields_slots {excess : Defect} {n room : Nat} {before : List SlotType}
    (near : ∀ t ∈ before, Near t) :
    Yields (fun after => ∀ t ∈ after, Near t) (slots s excess n room before) := by
  induction n generalizing room before with
  | zero => exact .pure near
  | succ n ih =>
    refine .bind (yields_slotType s) fun type ht => .ite (.fail _) (ih fun t hm => ?_)
    rcases List.mem_append.1 hm with hm | hm
    · exact ht.slots t (List.mem_reverse.1 hm)
    · exact near t hm

private theorem yields_contents {code : UInt8} (near : ∀ t ∈ previous.usedLocals, Near t) :
    Yields (fun c => (∀ t ∈ c.1, Near t) ∧ ∀ t ∈ c.2.1, Near t) (contents s previous code) := by
  refine .ite (.pure ⟨near, nofun⟩) (.ite ?_ (.ite ?_ (.ite ?_ ?_)))
  · exact .bind (yields_slots nofun) fun stack hs => .pure ⟨near, hs⟩
  · dsimp only
    split
    · next kept hk =>
      refine .pure ⟨fun t ht => near t ?_, nofun⟩
      exact List.mem_reverse.1 ((chop_suffix hk).mem (List.mem_reverse.1 ht))
    · exact .fail _
    · exact .fail _
  · refine .bind (yields_slots nofun) fun added ha => .pure ⟨fun t ht => ?_, nofun⟩
    rcases List.mem_append.1 ht with ht | ht
    · exact near t ht
    · exact ha t (List.mem_reverse.1 ht)
  · refine .bind (.trivial _) fun count _ => .bind (yields_slots nofun) fun locals hl => ?_
    refine .bind (.trivial _) fun depth _ => .bind (yields_slots nofun) fun stack hs => ?_
    exact .pure ⟨fun t ht => hl t (List.mem_reverse.1 ht), hs⟩

private theorem yields_offsetDelta (code : UInt8) : Yields (· < 65536) (offsetDelta code) := by
  have small := code.toNat_lt
  refine .ite (.pure (by omega)) (.ite (.pure (by omega)) (.ite (.fail _) ?_))
  exact .bind (.trivial _) fun delta _ => .pure delta.toNat_lt

/-- The frame that is read can be written again, at a distance that two bytes can say. -/
private theorem encodes_frame {first : Bool} (h : Encodes s previous)
    (read : frame s previous first bytes = .ok (f, rest)) :
    Encodes s f ∧ s.listing.isStart f.offset ∧
      ∃ delta < 65536, (if first then delta else previous.offset + delta + 1) = f.offset := by
  obtain ⟨admitted, start, _⟩ := frame_ok h.admitted read
  have represented := frame_represents h.admitted h.represented read
  have near : ∀ t ∈ previous.usedLocals, Near t := by
    rintro t ht n rfl
    exact h.near n (.inl (Frame.mem_locals_of_used ht))
  obtain ⟨code, _, _, read⟩ := Reader.bind_eq_ok.1 read
  obtain ⟨delta, _, hd, read⟩ := Reader.bind_eq_ok.1 read
  dsimp only at read
  generalize ho : (if first then delta else previous.offset + delta + 1) = offset at read
  split at read
  · cases read
  · obtain ⟨⟨locals, stack, pending⟩, _, hc, read⟩ := Reader.bind_eq_ok.1 read
    obtain ⟨rfl, _⟩ := Reader.pure_eq_ok.1 read
    obtain ⟨nearLocals, nearStack⟩ := yields_contents near hc
    refine ⟨⟨admitted, represented, fun n held => ?_⟩, start, delta, yields_offsetDelta code hd, ho⟩
    rcases held with held | held
    · simp only [Frame.padded, Array.mem_append, List.mem_toArray, Array.mem_replicate] at held
      rcases held with held | ⟨_, held⟩
      · exact nearLocals _ (List.mem_of_mem_take held) n rfl
      · cases held
    · exact nearStack _ held n rfl

/-- The first offset behind the frames. -/
private def nextOffset (before : Array Frame) : Nat := (before.back?.map (·.offset + 1)).getD 0

private theorem offset_of_delta (before : Array Frame) (delta : Nat) :
    (if before.isEmpty then delta else (before.back?.getD initial).offset + delta + 1) =
      nextOffset before + delta := by
  unfold nextOffset
  cases hback : before.back? with
  | none =>
    rw [Array.back?_eq_none_iff.1 hback]
    exact (Nat.zero_add delta).symm
  | some last =>
    have some : before.isEmpty = false := by
      rw [Array.isEmpty_eq_false_iff]
      rintro rfl
      cases hback
    rw [some, if_neg Bool.false_ne_true, Option.getD_some, Option.map_some, Option.getD_some]
    omega

private theorem reads_framesFrom {n : Nat} {before all : Array Frame} (hi : Encodes s initial)
    (hb : ∀ f ∈ before, Encodes s f) (few : s.maxLocals < 65536) (shallow : s.maxStack < 65536)
    (indexed : ∀ f ∈ all, Indexed s.pool indexOf f)
    (h : framesFrom s initial n before bytes = .ok (all, rest)) :
    ∃ fs, all.toList = before.toList ++ fs ∧ fs.length = n ∧
      Reads (framesFrom s initial n before) (fullFrames indexOf (nextOffset before) fs) all := by
  induction n generalizing before bytes with
  | zero =>
    cases h
    exact ⟨[], (List.append_nil _).symm, rfl, .pure _⟩
  | succ n ih =>
    rw [framesFrom_succ] at h ⊢
    obtain ⟨f, middle, hf, h⟩ := Reader.bind_eq_ok.1 h
    have hp : Encodes s (before.back?.getD initial) := by
      cases hback : before.back? with
      | none => exact hi
      | some last => exact hb last (Array.mem_of_back? hback)
    obtain ⟨encodes, start, delta, near, offset⟩ := encodes_frame hp hf
    have further : ∀ g ∈ before.push f, Encodes s g := by
      intro g hg
      rcases Array.mem_push.1 hg with hg | rfl
      · exact hb g hg
      · exact encodes
    obtain ⟨fs, he, length, others⟩ := ih further h
    have hall : all.toList = before.toList ++ f :: fs := by
      rw [he, Array.toList_push, List.append_assoc, List.singleton_append]
    have mem : f ∈ all := by
      rw [← Array.mem_toList_iff, hall]
      simp
    have counted : f.offset - nextOffset before = delta := by
      rw [← offset, offset_of_delta, Nat.add_sub_cancel_left]
    have behind : nextOffset (before.push f) = f.offset + 1 := by
      rw [nextOffset, Array.back?_push]
      rfl
    rw [behind] at others
    refine ⟨f :: fs, hall, by rw [List.length_cons, length], ?_⟩
    rw [fullFrames, counted]
    exact .bind (reads_frame encodes (indexed f mem) few shallow start near offset) others

/-- The table is read again from its full payload, whichever indices the names have. -/
theorem ofPayload_fullPayload {payload : Option (List UInt8)} (hi : Encodes s initial)
    (few : s.maxLocals < 65536) (shallow : s.maxStack < 65536)
    (indexed : ∀ f ∈ t.frames, Indexed s.pool indexOf f)
    (h : ofPayload s initial payload = .ok t) :
    ofPayload s initial (some (fullPayload indexOf t)) = .ok t := by
  have reads : Reads (allFrames s initial) (fullPayload indexOf t) t.frames := by
    cases payload with
    | none =>
      cases h
      exact .bind (.word _ 0) (.pure _)
    | some payload =>
      obtain ⟨count, middle, _, h⟩ := Reader.bind_eq_ok.1 (ofPayload_some_ok.1 h)
      obtain ⟨fs, all, length, reads⟩ := reads_framesFrom hi
        (fun _ hf => absurd hf (Array.not_mem_empty _)) few shallow indexed h
      rw [List.nil_append] at all
      have size : t.frames.size = count.toNat := by
        rw [← Array.length_toList, all, length]
      rw [fullPayload, size, all, UInt16.ofNat_toNat]
      exact .bind (.word _ count) reads
  have read := reads []
  rw [List.append_nil] at read
  exact ofPayload_some_ok.2 read

/-- What is read from a payload, whichever forms it has its frames in, is read as well from the one
that has each of them in full, if the pool has a class for every name in the frames. Where it has
several for a name, any of them will do. -/
theorem full_frames_decode {maxLocals maxStack : UInt16} {listing : Listing} {pool : ConstantPool}
    {payload : Option (List UInt8)}
    (entry : Frame.entry method (.reference name) maxLocals.toNat maxStack.toNat =
      .ok (initial, result))
    (accepted : ofPayload ⟨maxLocals.toNat, maxStack.toNat, listing, pool⟩ initial payload = .ok t)
    (named : ∀ f ∈ t.frames, ∀ name, f.Holds (.reference name) →
      ∃ index, pool.className index = .ok name) :
    let s : Surroundings := ⟨maxLocals.toNat, maxStack.toNat, listing, pool⟩
    ofPayload s initial (some (fullPayload pool.classIndex t)) = .ok t ∧
      ∀ indexOf : String → UInt16,
        (∀ f ∈ t.frames, ∀ name, f.Holds (.reference name) →
          pool.className (indexOf name) = .ok name) →
        ofPayload s initial (some (fullPayload indexOf t)) = .ok t := by
  intro s
  have encodes : Encodes s initial := encodes_entry entry
  have decodes (indexOf : String → UInt16) (indexed : ∀ f ∈ t.frames, Indexed s.pool indexOf f) :
      ofPayload s initial (some (fullPayload indexOf t)) = .ok t :=
    ofPayload_fullPayload encodes maxLocals.toNat_lt maxStack.toNat_lt indexed accepted
  refine ⟨decodes _ fun f hf name held => ?_, decodes⟩
  obtain ⟨index, found⟩ := named f hf name held
  exact ConstantPool.className_classIndex found

theorem full_frames_decode_mixed :
    ofPayload mixedSurroundings mixedEntry (some mixedPayload) = .ok mixedTable ∧
      fullPayload mixedSurroundings.pool.classIndex mixedTable =
        [0, 5, 255, 0, 3, 0, 3, 6, 4, 8, 0, 0, 0, 0, 255, 0, 0, 0, 3, 6, 4, 8, 0, 0, 0, 1, 3,
          255, 0, 0, 0, 1, 6, 0, 0, 255, 0, 0, 0, 1, 7, 0, 2, 0, 1, 5, 255, 0, 0, 0, 1, 7, 0, 2,
          0, 0] ∧
      ofPayload mixedSurroundings mixedEntry
        (some (fullPayload mixedSurroundings.pool.classIndex mixedTable)) = .ok mixedTable := by
  have entry : Frame.entry mixedConstructor (.reference "Mixed") (4 : UInt16).toNat
      (2 : UInt16).toNat = .ok (mixedEntry, .bogus) := by decide +kernel
  have accepted : ofPayload mixedSurroundings mixedEntry (some mixedPayload) = .ok mixedTable := by
    decide +kernel
  have names : ∀ f ∈ mixedTable.frames, ∀ u ∈ f.locals.toList ++ f.stack.slots,
      u.name? ∈ [none, some "Mixed"] := by decide +kernel
  have found : mixedSurroundings.pool.className 2 = .ok "Mixed" := by decide +kernel
  refine ⟨accepted, by decide +kernel, (full_frames_decode entry accepted ?_).1⟩
  intro f hf name held
  have slot : .reference name ∈ f.locals.toList ++ f.stack.slots := by
    rwa [List.mem_append, Array.mem_toList_iff]
  have known := names f hf _ slot
  simp only [SlotType.name?, List.mem_cons, reduceCtorEq, Option.some.injEq, List.not_mem_nil,
    or_false, false_or] at known
  refine ⟨2, ?_⟩
  rw [known]
  exact found

end StackMap
end ClassVerifier
