import ClassVerifier.Proofs.EntryFrame
import ClassVerifier.StackMap.Decode

/-! The frames that a method records. They stand in ascending order at instruction starts, and the
receiver is pending in one exactly if it is among the locals in use. -/
namespace ClassVerifier.StackMap
variable {s : Surroundings} {f previous : Frame} {bytes rest : List UInt8}

/-- What holds of every recorded frame, and of the frame that a method begins with. -/
structure Surroundings.Admits (s : Surroundings) (f : Frame) : Prop where
  regular : f.Regular
  maxLocals_eq : f.maxLocals = s.maxLocals
  pending_iff : f.thisPending ↔ .uninitializedThis ∈ f.usedLocals

theorem Surroundings.admits_entry {m : Method} {name : String} {result : SlotType}
    (h : Frame.entry m (.reference name) s.maxLocals s.maxStack = .ok (f, result)) :
    s.Admits f where
  regular := Frame.entry_regular h
  maxLocals_eq := Frame.entry_maxLocals h
  pending_iff := (Frame.usedLocals_entry h).symm

theorem slots_length {excess : Defect} {n room : Nat} {before after : List SlotType}
    (h : slots s excess n room before bytes = .ok (after, rest)) :
    after.length ≤ before.length + room := by
  induction n generalizing room before bytes with
  | zero =>
    obtain ⟨rfl, _⟩ := Reader.pure_eq_ok.1 h
    exact Nat.le_add_right _ _
  | succ n ih =>
    obtain ⟨type, middle, _, h⟩ := Reader.bind_eq_ok.1 h
    split at h
    · cases h
    · have hle := ih h
      rw [List.length_append, List.length_reverse] at hle
      omega

theorem chop_suffix {n : Nat} {locals kept : List SlotType}
    (h : chop n locals = .ok (some kept)) : kept <:+ locals := by
  fun_induction chop n locals with
  | case1 locals =>
    cases h
    exact List.suffix_rfl
  | case2 => cases h
  | case3 => cases h
  | case4 n last hs second locals ih =>
    exact (ih h).trans ((List.suffix_cons second locals).trans (List.suffix_cons last _))
  | case5 n last locals hs ih => exact (ih h).trans (List.suffix_cons last locals)

private theorem holdsReceiver_iff {locals : List SlotType} :
    holdsReceiver locals ↔ .uninitializedThis ∈ locals := by
  rw [holdsReceiver, decide_eq_true_eq]

theorem contents_ok {code : UInt8} {locals stack : List SlotType} {pending : Bool}
    (hp : s.Admits previous)
    (h : contents s previous code bytes = .ok ((locals, stack, pending), rest)) :
    locals.length ≤ s.maxLocals ∧ (pending ↔ .uninitializedThis ∈ locals) := by
  have hle : previous.usedLocals.length ≤ s.maxLocals := by
    rw [Frame.length_usedLocals hp.regular, ← hp.maxLocals_eq]
    exact hp.regular.used_le
  unfold contents at h
  dsimp only at h
  split at h
  · obtain ⟨he, _⟩ := Reader.pure_eq_ok.1 h
    cases he
    exact ⟨hle, hp.pending_iff⟩
  · split at h
    · obtain ⟨stack', _, _, h⟩ := Reader.bind_eq_ok.1 h
      obtain ⟨he, _⟩ := Reader.pure_eq_ok.1 h
      cases he
      exact ⟨hle, hp.pending_iff⟩
    · split at h
      · rcases hk : chop (251 - code.toNat) previous.usedLocals.reverse with fault | _ | kept
        · rw [hk] at h
          cases h
        · rw [hk] at h
          cases h
        · rw [hk] at h
          obtain ⟨he, _⟩ := Reader.pure_eq_ok.1 h
          cases he
          have short := (chop_suffix hk).length_le
          rw [List.length_reverse] at short ⊢
          exact ⟨by omega, by rw [holdsReceiver_iff, List.mem_reverse]⟩
      · split at h
        · obtain ⟨added, _, ha, h⟩ := Reader.bind_eq_ok.1 h
          obtain ⟨he, _⟩ := Reader.pure_eq_ok.1 h
          cases he
          have room := slots_length ha
          rw [List.length_nil] at room
          rw [List.length_append, List.length_reverse, Bool.or_eq_true, holdsReceiver_iff,
            hp.pending_iff, List.mem_append, List.mem_reverse]
          exact ⟨by omega, Iff.rfl⟩
        · obtain ⟨count, _, _, h⟩ := Reader.bind_eq_ok.1 h
          obtain ⟨locals', _, hl, h⟩ := Reader.bind_eq_ok.1 h
          obtain ⟨depth, _, _, h⟩ := Reader.bind_eq_ok.1 h
          obtain ⟨stack', _, _, h⟩ := Reader.bind_eq_ok.1 h
          obtain ⟨he, _⟩ := Reader.pure_eq_ok.1 h
          cases he
          have room := slots_length hl
          rw [List.length_nil] at room
          rw [List.length_reverse]
          exact ⟨by omega, by rw [holdsReceiver_iff, List.mem_reverse]⟩

/-- A frame admitted at an instruction start, further on than the frame before it. -/
theorem frame_ok {first : Bool} (hp : s.Admits previous)
    (h : frame s previous first bytes = .ok (f, rest)) :
    s.Admits f ∧ s.listing.isStart f.offset ∧ (first = false → previous.offset < f.offset) := by
  obtain ⟨code, _, _, h⟩ := Reader.bind_eq_ok.1 h
  obtain ⟨delta, _, _, h⟩ := Reader.bind_eq_ok.1 h
  dsimp only at h
  generalize ho : (if first then delta else previous.offset + delta + 1) = offset at h
  split at h
  · cases h
  · next start =>
    obtain ⟨⟨locals, stack, pending⟩, _, hc, h⟩ := Reader.bind_eq_ok.1 h
    obtain ⟨rfl, _⟩ := Reader.pure_eq_ok.1 h
    obtain ⟨hle, hpending⟩ := contents_ok hp hc
    obtain ⟨regular, used⟩ := Frame.padded_regular (f := {
      offset
      used := locals.length
      maxLocals := s.maxLocals
      maxStack := s.maxStack
      thisPending := pending
      locals := Frame.padded s.maxLocals locals
      stack := .ofSlots stack }) rfl rfl hle
    refine ⟨⟨regular, rfl, ?_⟩, by simpa using start, ?_⟩
    · rw [used]
      exact hpending
    · rintro rfl
      change previous.offset < offset
      rw [← ho, if_neg Bool.false_ne_true]
      omega

/-- The frames so far: each is admitted, stands at an instruction start, and is further on than
those before it. -/
structure Recorded (s : Surroundings) (frames : List Frame) : Prop where
  admitted : ∀ f ∈ frames, s.Admits f
  starts : ∀ f ∈ frames, s.listing.isStart f.offset
  ascending : frames.Pairwise (·.offset < ·.offset)

namespace Recorded

theorem nil : Recorded s [] := ⟨nofun, nofun, .nil⟩

theorem concat {frames : List Frame} (h : Recorded s frames) (admitted : s.Admits f)
    (start : s.listing.isStart f.offset) (behind : ∀ g ∈ frames.getLast?, g.offset < f.offset) :
    Recorded s (frames ++ [f]) := by
  refine ⟨?_, ?_, List.pairwise_append.2 ⟨h.ascending, List.pairwise_singleton _ _, ?_⟩⟩
  · exact List.forall_mem_append.2 ⟨h.admitted, List.forall_mem_singleton.2 admitted⟩
  · exact List.forall_mem_append.2 ⟨h.starts, List.forall_mem_singleton.2 start⟩
  · intro g hg f' hf'
    rw [List.mem_singleton.1 hf']
    cases hlast : frames.getLast? with
    | none =>
      rw [List.getLast?_eq_none_iff.1 hlast] at hg
      cases hg
    | some last =>
      have hlt := behind last hlast
      obtain ⟨init, rfl⟩ := List.getLast?_eq_some_iff.1 hlast
      rcases List.mem_append.1 hg with hg | hg
      · have := (List.pairwise_append.1 h.ascending).2.2 g hg last (List.mem_singleton_self last)
        omega
      · rwa [List.mem_singleton.1 hg]

end Recorded

private theorem framesFrom_ok {initial : Frame} (hi : s.Admits initial) {n : Nat}
    {before all : Array Frame} (hb : Recorded s before.toList)
    (h : framesFrom s initial n before bytes = .ok (all, rest)) : Recorded s all.toList := by
  induction n generalizing before bytes with
  | zero =>
    cases h
    exact hb
  | succ n ih =>
    unfold framesFrom at h
    split at h
    · next f middle hf =>
      have hp : s.Admits (before.back?.getD initial) := by
        cases hback : before.back? with
        | none => exact hi
        | some last => exact hb.admitted last (by simpa using Array.mem_of_back? hback)
      obtain ⟨admitted, start, behind⟩ := frame_ok hp hf
      apply ih _ h
      rw [Array.toList_push]
      apply hb.concat admitted start
      intro last hlast
      rw [Array.getLast?_toList] at hlast
      rw [hlast] at behind
      refine behind ?_
      rw [Array.isEmpty_eq_false_iff]
      rintro rfl
      cases hlast
    · cases h

/-- The recorded frames of a method whose first frame is admitted. -/
theorem ofPayload_ok {initial : Frame} {payload : Option (List UInt8)} {m : StackMap}
    (hi : s.Admits initial) (h : ofPayload s initial payload = .ok m) :
    Recorded s m.frames.toList := by
  unfold ofPayload at h
  split at h
  · cases h
    exact .nil
  · split at h
    · next all ha =>
      cases h
      obtain ⟨count, middle, _, hframes⟩ := Reader.bind_eq_ok.1 ha
      exact framesFrom_ok hi .nil hframes
    · cases h
    · cases h

private theorem search_some {frames : Array Frame} {target : Int} {low high : Nat}
    (h : search frames target low high = some f) :
    f ∈ frames.toList ∧ (f.offset : Int) = target := by
  fun_induction search frames target low high with
  | case1 => cases h
  | case2 low high hlt middle g hg he =>
    cases h
    exact ⟨Array.mem_toList_iff.2 (Array.mem_of_getElem? hg), he⟩
  | case3 low high hlt middle g hg he hless ih => exact ih h
  | case4 low high hlt middle g hg he hless ih => exact ih h
  | case5 => cases h

/-- A frame that is found is recorded, and stands at the offset that was asked for. -/
theorem frameAt?_some {m : StackMap} {target : Int} (h : m.frameAt? target = some f) :
    f ∈ m.frames.toList ∧ (f.offset : Int) = target := search_some h

end ClassVerifier.StackMap
