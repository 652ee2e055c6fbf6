import ClassVerifier.Proofs.ExactReading
import ClassVerifier.Proofs.RecordedFrames
import Mathlib.Control.Monad.Basic

/-! What is read from a payload is a table to look frames up in: its offsets ascend, so halving it
misses none of them. The payload is read to its end and could not have ended anywhere else. -/
namespace ClassVerifier.StackMap
variable {s : Surroundings} {initial f : Frame} {t : StackMap} {method : Method} {name : String}
  {result : SlotType} {payload : List UInt8}

private theorem offset_lt {frames : Array Frame} {j k : Nat} {g : Frame}
    (ascending : frames.toList.Pairwise (·.offset < ·.offset)) (hjk : j < k)
    (hj : frames[j]? = some g) (hk : frames[k]? = some f) : g.offset < f.offset := by
  rw [← Array.getElem?_toList] at hj hk
  obtain ⟨hj, rfl⟩ := List.getElem?_eq_some_iff.1 hj
  obtain ⟨hk, rfl⟩ := List.getElem?_eq_some_iff.1 hk
  exact List.pairwise_iff_getElem.1 ascending _ _ _ _ hjk

/-- Halving keeps the frame that is searched for between the two ends. -/
private theorem search_of_getElem? {frames : Array Frame} {target : Int} {k low high : Nat}
    (ascending : frames.toList.Pairwise (·.offset < ·.offset)) (hk : frames[k]? = some f)
    (found : (f.offset : Int) = target) (above : low ≤ k) (below : k < high)
    (inside : high ≤ frames.size) : search frames target low high = some f := by
  fun_induction search frames target low high with
  | case1 low high hlt middle hm =>
    have out := Array.getElem?_eq_none_iff.1 hm
    omega
  | case2 low high hlt middle g hm he =>
    rcases Nat.lt_trichotomy middle k with hlt' | rfl | hgt
    · have := offset_lt ascending hlt' hm hk
      omega
    · exact hm.symm.trans hk
    · have := offset_lt ascending hgt hk hm
      omega
  | case3 low high hlt middle g hm he hless ih =>
    have right : middle < k := by
      rcases Nat.lt_trichotomy middle k with hlt' | rfl | hgt
      · exact hlt'
      · cases hm.symm.trans hk
        exact absurd found he
      · have := offset_lt ascending hgt hk hm
        omega
    exact ih right below inside
  | case4 low high hlt middle g hm he hless ih =>
    have left : k < middle := by
      rcases Nat.lt_trichotomy middle k with hlt' | rfl | hgt
      · have := offset_lt ascending hlt' hm hk
        omega
      · cases hm.symm.trans hk
        exact absurd found he
      · exact hgt
    exact ih above left (by omega)
  | case5 => omega

/-- What is recorded at an offset is found there, and nothing else is. -/
theorem Recorded.frameAt?_eq_some_iff (h : Recorded s t.frames.toList) {target : Int} :
    t.frameAt? target = some f ↔ f ∈ t.frames ∧ (f.offset : Int) = target := by
  constructor
  · intro found
    obtain ⟨hf, offset⟩ := frameAt?_some found
    exact ⟨Array.mem_toList_iff.1 hf, offset⟩
  · rintro ⟨hf, offset⟩
    obtain ⟨k, hk⟩ := Array.mem_iff_getElem?.1 hf
    have inside := (Array.getElem?_eq_some_iff.1 hk).1
    exact search_of_getElem? h.ascending hk offset (Nat.zero_le k) inside (Nat.le_refl _)

/-- No payload that is accepted begins another one. -/
theorem eq_of_ofPayload_append {shorter : List UInt8} {u : StackMap} (front : shorter <+: payload)
    (short : ofPayload s initial (some shorter) = .ok u)
    (whole : ofPayload s initial (some payload) = .ok t) : shorter = payload := by
  obtain ⟨extra, rfl⟩ := front
  cases extra with
  | nil => exact (List.append_nil _).symm
  | cons b extra => cases (ofPayload_append short (List.cons_ne_nil b extra)).symm.trans whole

/-- The frames that are read from an accepted payload stand at ever higher offsets, each where an
instruction starts, so that the lookup at a target finds a frame exactly if one is recorded there.
In each the receiver is pending exactly if it is among the locals. Fewer bytes are not accepted, nor
are more. -/
theorem decoded_frames_searchable
    (entry : Frame.entry method (.reference name) s.maxLocals s.maxStack = .ok (initial, result))
    (accepted : ofPayload s initial (some payload) = .ok t) :
    t.frames.toList.Pairwise (·.offset < ·.offset) ∧
    (∀ f ∈ t.frames, s.listing.isStart f.offset ∧
      (f.thisPending ↔ .uninitializedThis ∈ f.usedLocals)) ∧
    (∀ target f, t.frameAt? target = some f ↔ f ∈ t.frames ∧ (f.offset : Int) = target) ∧
    (∀ shorter u, shorter <+: payload → shorter ≠ payload →
      ofPayload s initial (some shorter) ≠ .ok u) ∧
    ∀ extra u, extra ≠ [] → ofPayload s initial (some (payload ++ extra)) ≠ .ok u := by
  have recorded := ofPayload_ok (Surroundings.admits_entry entry) accepted
  refine ⟨recorded.ascending, fun f hf => ?_, fun target f => recorded.frameAt?_eq_some_iff,
    fun shorter u front differ short => ?_, fun extra u some longer => ?_⟩
  · have hf := Array.mem_toList_iff.2 hf
    exact ⟨recorded.starts f hf, (recorded.admitted f hf).pending_iff⟩
  · exact differ (eq_of_ofPayload_append front short accepted)
  · cases (ofPayload_append accepted some).symm.trans longer

/-- Allocates an object, and goes on with instructions that do nothing. -/
def mixedCode : Array UInt8 := #[0xbb, 0x00, 0x02, 0x57, 0x00, 0x00, 0x00, 0xb1]

def mixedSurroundings : Surroundings where
  maxLocals := 4
  maxStack := 2
  listing := match Listing.ofCode mixedCode with
    | .ok listing => listing
    | .error _ => ⟨0, [], #[]⟩
  pool := .ofList [.utf8 "Mixed", .classRef 1]

/-- One frame of each form, the first one with a local more and the third one with two less. -/
def mixedPayload : List UInt8 :=
  [0, 5, 252, 0, 3, 8, 0, 0, 64, 3, 249, 0, 0, 255, 0, 0, 0, 1, 7, 0, 2, 0, 1, 5, 0]

def mixedConstructor : Method := ⟨0x0001, "<init>", "(J)V", none⟩

def mixedFrame (offset : Nat) (locals operands : List SlotType) : Frame where
  offset
  used := locals.length
  maxLocals := 4
  maxStack := 2
  thisPending := holdsReceiver locals
  locals := Frame.padded 4 locals
  stack := .ofSlots operands.reverse

def mixedEntry : Frame := mixedFrame 0 [.uninitializedThis, .long, .longSecond] []

def mixedTable : StackMap where
  frames := #[
    mixedFrame 3 [.uninitializedThis, .long, .longSecond, .uninitialized 0] [],
    mixedFrame 4 [.uninitializedThis, .long, .longSecond, .uninitialized 0]
      [.double, .doubleSecond],
    mixedFrame 5 [.uninitializedThis] [],
    mixedFrame 6 [.reference "Mixed"] [.null],
    mixedFrame 7 [.reference "Mixed"] []]

theorem decoded_frames_searchable_mixed :
    Listing.ofCode mixedCode = .ok mixedSurroundings.listing ∧
      Frame.entry mixedConstructor (.reference "Mixed") 4 2 = .ok (mixedEntry, .bogus) ∧
      ofPayload mixedSurroundings mixedEntry (some mixedPayload) = .ok mixedTable ∧
      mixedTable.frameAt? 5 = some (mixedFrame 5 [.uninitializedThis] []) ∧
      (∀ t, ofPayload mixedSurroundings mixedEntry (some mixedPayload.dropLast) ≠ .ok t) ∧
      ∀ t, ofPayload mixedSurroundings mixedEntry (some (mixedPayload ++ [0])) ≠ .ok t := by
  have listed : Listing.ofCode mixedCode = .ok mixedSurroundings.listing := by decide +kernel
  have entry : Frame.entry mixedConstructor (.reference "Mixed") mixedSurroundings.maxLocals
      mixedSurroundings.maxStack = .ok (mixedEntry, .bogus) := by decide +kernel
  have accepted : ofPayload mixedSurroundings mixedEntry (some mixedPayload) = .ok mixedTable := by
    decide +kernel
  obtain ⟨_, _, found, shorter, longer⟩ := decoded_frames_searchable entry accepted
  refine ⟨listed, entry, accepted, (found 5 _).2 ⟨by decide +kernel, rfl⟩, fun t => ?_,
    fun t => longer [0] t (by decide)⟩
  exact shorter _ t (List.dropLast_prefix _) (by decide)

end ClassVerifier.StackMap
