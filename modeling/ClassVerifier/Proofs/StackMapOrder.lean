import ClassVerifier.Proofs.ControlFlow
import ClassVerifier.Proofs.ExpectedFaults

/-! The walk stays in step with the listing and with the recorded frames. It reads the instructions
that are listed, and the index of the next frame is always the number of frames that are recorded
further back, so each frame is used at its own instruction and none is left over. The causes that
stand for the contrary are never given. -/
namespace ClassVerifier
variable {r resolver : Resolver} {c : ClassModel} {method : Method} {code : Code} {m : Body}
  {initial : Frame} {p q : Position} {i : Located} {f : Frame} {pending : List Frame} {b : Nat}

/-- The index of the next recorded frame. -/
def Body.stackMapIndex (m : Body) (q : Position) : Nat := m.stackMap.frames.size - q.pending.length

/-- The frames that are recorded for an offset. -/
def StackMap.recordedAt (m : StackMap) (b : Nat) : List Frame :=
  m.frames.toList.filter (·.offset = b)

section
variable {frames : List Frame}

private theorem filter_eq_drop (ascending : frames.Pairwise (·.offset < ·.offset)) :
    frames.filter (b ≤ ·.offset) = frames.drop (frames.countP (·.offset < b)) := by
  induction frames with
  | nil => rfl
  | cons f frames ih =>
    obtain ⟨behind, ascending⟩ := List.pairwise_cons.1 ascending
    by_cases here : f.offset < b
    · rw [List.filter_cons_of_neg (by simpa using here),
        List.countP_cons_of_pos (by simpa using here), List.drop_succ_cons, ih ascending]
    · have ahead : ∀ g ∈ f :: frames, b ≤ g.offset := by
        refine List.forall_mem_cons.2 ⟨Nat.le_of_not_lt here, fun g hg => ?_⟩
        have := behind g hg
        omega
      rw [List.filter_eq_self.2 fun g hg => decide_eq_true (ahead g hg), List.countP_eq_zero.2,
        List.drop_zero]
      intro g hg
      simpa using ahead g hg

private theorem filter_split (ascending : frames.Pairwise (·.offset < ·.offset)) :
    frames.filter (b ≤ ·.offset) =
      frames.filter (·.offset = b) ++ frames.filter (b < ·.offset) := by
  induction frames with
  | nil => rfl
  | cons f frames ih =>
    obtain ⟨behind, ascending⟩ := List.pairwise_cons.1 ascending
    have ih := ih ascending
    rcases Nat.lt_trichotomy f.offset b with back | here | ahead
    · rw [List.filter_cons_of_neg (by simpa using back), List.filter_cons_of_neg (by simp; omega),
        List.filter_cons_of_neg (by simp; omega), ih]
    · rw [List.filter_cons_of_pos (by simp; omega), List.filter_cons_of_pos (by simpa using here),
        List.filter_cons_of_neg (by simp; omega), ih]
      rfl
    · have none : frames.filter (·.offset = b) = [] := by
        rw [List.filter_eq_nil_iff]
        intro g hg
        have := behind g hg
        simp only [decide_eq_true_eq]
        omega
      rw [List.filter_cons_of_pos (by simp; omega), List.filter_cons_of_neg (by simp; omega),
        List.filter_cons_of_pos (by simpa using ahead), ih, none]
      rfl

private theorem length_filter_le_one (ascending : frames.Pairwise (·.offset < ·.offset)) :
    (frames.filter (·.offset = b)).length ≤ 1 := by
  have distinct := ascending.filter (·.offset = b)
  have here : ∀ f ∈ frames.filter (·.offset = b), f.offset = b := fun f hf =>
    of_decide_eq_true (List.mem_filter.1 hf).2
  generalize frames.filter (·.offset = b) = recorded at distinct here
  match recorded with
  | [] => exact Nat.zero_le _
  | [_] => exact Nat.le_refl _
  | f :: g :: rest =>
    have apart := (List.pairwise_cons.1 distinct).1 g List.mem_cons_self
    have hf := here f List.mem_cons_self
    have hg := here g (List.mem_cons_of_mem _ List.mem_cons_self)
    omega

end

/-- A walk that comes to its end has been in front of every instruction. -/
theorem Body.Visits.advances {vs : List Visit} (h : m.Visits r b p vs) :
    (∃ k q, m.Advances r b p k q ∧ m.code.bytes.size ≤ k) ∧
      ∀ v ∈ vs, ∃ q, m.Advances r b p v.site.offset q := by
  induction h with
  | done past cutOff => exact ⟨⟨_, _, .refl, past⟩, fun v hv => absurd hv List.not_mem_nil⟩
  | @visit b i p f g pending flow vs inside decoded entered stepped follow ih =>
    have here : m.Advances r b p i.offset p := Instruction.decode?_offset decoded ▸ .refl
    have first := Advances.refl.step inside decoded entered stepped
    obtain ⟨⟨k, q, last, past⟩, all⟩ := ih
    refine ⟨⟨k, q, first.trans last, past⟩, List.forall_mem_cons.2 ⟨⟨p, here⟩, fun v hv => ?_⟩⟩
    obtain ⟨q, there⟩ := all v hv
    exact ⟨q, first.trans there⟩

namespace Code.Prepared

theorem index_eq (p : code.Prepared r c method m initial) (h : m.InStep b q) :
    m.stackMapIndex q = m.stackMap.frames.toList.countP (·.offset < b) ∧
      q.pending = m.stackMap.frames.toList.drop (m.stackMapIndex q) := by
  have rest := h.pending_eq.trans (filter_eq_drop p.recorded.ascending)
  have index : m.stackMapIndex q = m.stackMap.frames.toList.countP (·.offset < b) := by
    have bound := List.countP_le_length (p := (·.offset < b)) (l := m.stackMap.frames.toList)
    rw [Body.stackMapIndex, rest, List.length_drop, ← Array.length_toList]
    omega
  exact ⟨index, index ▸ rest⟩

/-- Nothing is listed behind the end, and no frame is left over there. -/
theorem finished (p : code.Prepared r c method m initial) (h : m.InStep b q)
    (past : m.code.bytes.size ≤ b) : b = m.code.bytes.size ∧ q.pending = [] := by
  have inside {k : Nat} (start : m.listing.isStart k) : k < m.code.bytes.size := by
    obtain ⟨i, hi, rfl⟩ := (Listing.isStart_iff p.ofCode_eq).1 start
    exact ((Listing.covers_ofCode p.ofCode_eq).mem hi).2.2
  constructor
  · exact h.start.resolve_left fun start => absurd (inside start) (Nat.not_lt.2 past)
  · rw [h.pending_eq, List.filter_eq_nil_iff]
    intro g hg ahead
    have := inside (p.recorded.starts g hg)
    exact absurd (Nat.le_trans past (of_decide_eq_true ahead)) (Nat.not_le.2 this)

/-- The frame recorded for an instruction is used in front of it. -/
theorem recordedAt_of_entered (p : code.Prepared r c method m initial) (h : m.InStep b q)
    (entered : (Body.enter { q.frame with offset := b } q.pending q.cutOff).run r =
      .ok (f, pending)) :
    q.pending = m.stackMap.recordedAt b ++ pending ∧
      ∀ recorded ∈ m.stackMap.recordedAt b, f.Agrees recorded := by
  constructor
  · rw [p.pending_entered h entered, h.pending_eq]
    exact filter_split p.recorded.ascending
  · intro recorded hr
    obtain ⟨mem, offset⟩ := List.mem_filter.1 hr
    exact p.agrees_entered h entered mem (of_decide_eq_true offset)

/-- A walk that succeeds has been in front of every instruction and has used every frame. -/
theorem everywhere_of_walk (p : code.Prepared r c method m initial)
    (accepted : (m.walk 0 ⟨initial, m.stackMap.frames.toList, false⟩).run r = .ok ()) :
    (∃ q, m.Advances r 0 ⟨initial, m.stackMap.frames.toList, false⟩ m.code.bytes.size q ∧
      q.pending = []) ∧
      ∀ i ∈ m.listing.body, ∃ q,
        m.Advances r 0 ⟨initial, m.stackMap.frames.toList, false⟩ i.offset q := by
  obtain ⟨vs, visits⟩ := Body.walk_visits accepted
  obtain ⟨⟨k, q, last, past⟩, all⟩ := visits.advances
  obtain ⟨rfl, none⟩ := p.finished (p.inStep last) past
  refine ⟨⟨q, last, none⟩, ?_⟩
  rw [← p.sites visits]
  exact List.forall_mem_map.2 all

end Code.Prepared

/-- Wherever the walk gets to, the index of the next recorded frame is the number of frames recorded
for lower offsets, and either the code ends or the walk reads the very instruction that is listed.
The frame recorded for it, if there is one, is used here: it takes over and only the frames behind
it are left. Once the method is accepted the walk has been everywhere and no frame is left. No
method is rejected for a frame passed over, too many keys, an object without an allocation or a
constant that cannot be loaded, none at an offset for bytes that are no instruction, and for a bad
instruction only at those of subroutines. -/
theorem stackMap_in_step (body : method.code = some code) :
    (∀ m initial, (code.prepare c method).run (resolver.within c) = .ok (m, initial) →
      let start : Position := ⟨initial, m.stackMap.frames.toList, false⟩
      (∀ b q, m.Advances (resolver.within c) 0 start b q →
        m.stackMapIndex q = m.stackMap.frames.toList.countP (·.offset < b) ∧
        q.pending = m.stackMap.frames.toList.drop (m.stackMapIndex q) ∧
        (m.stackMap.recordedAt b).length ≤ 1 ∧
        (b = m.code.bytes.size ∨ ∃ i, Instruction.decode? m.code.bytes b = some i ∧
          m.listing.at? b = some i) ∧
        ∀ f pending, (Body.enter { q.frame with offset := b } q.pending q.cutOff).run
            (resolver.within c) = .ok (f, pending) →
          q.pending = m.stackMap.recordedAt b ++ pending ∧
          ∀ recorded ∈ m.stackMap.recordedAt b, f.Agrees recorded) ∧
      ((method.verify c).run (resolver.within c) = .ok () →
        (∃ q, m.Advances (resolver.within c) 0 start m.code.bytes.size q ∧ q.pending = []) ∧
        ∀ i ∈ m.listing.body, ∃ q, m.Advances (resolver.within c) 0 start i.offset q)) ∧
    ∀ offset cause,
      (method.verify c).run (resolver.within c) = .error (.rejected offset cause) →
        (∀ n, cause ≠ .badStackMapOffset n) ∧ cause ≠ .tooManySwitchKeys ∧
        cause ≠ .expectingNewInstruction ∧ cause ≠ .invalidLdcIndex ∧
        (∀ n, cause = .illegalInstruction n → offset = none) ∧
        ∀ op, cause = .badInstruction op → op = 0xa8 ∨ op = 0xa9 ∨ op = 0xc9 := by
  refine ⟨?_, ?_⟩
  · intro m initial prepared start
    have p := Code.prepare_ok prepared
    refine ⟨fun b q advances => ?_, fun accepted => ?_⟩
    · have here := p.inStep advances
      obtain ⟨index, rest⟩ := p.index_eq here
      exact ⟨index, rest, length_filter_le_one p.recorded.ascending, p.read_or_end here,
        fun f pending entered => p.recordedAt_of_entered here entered⟩
    · rw [Method.verify_eq body, Check.run_bind_of_ok prepared] at accepted
      exact p.everywhere_of_walk accepted
  · intro offset cause rejected
    rcases Method.verify_error rejected with possible | ⟨n, he⟩
    · refine ⟨?_, ?_, ?_, ?_, ?_, ?_⟩
      · rintro n rfl
        exact possible
      · rintro rfl
        exact possible
      · rintro rfl
        exact possible
      · rintro rfl
        exact possible
      · rintro n rfl
        exact possible.elim
      · rintro op rfl
        exact possible
    · cases he
      simp

/-- The loop that counts down has a frame at its head and one at its end. -/
theorem stackMap_in_step_countdown :
    countdown.code = some countdownCode ∧
      (countdown.verify counter).run (Resolver.within (fun _ => .unknown) counter) = .ok () ∧
      ∃ m initial, (countdownCode.prepare counter countdown).run
          (Resolver.within (fun _ => .unknown) counter) = .ok (m, initial) ∧
        ∃ q, m.Advances (Resolver.within (fun _ => .unknown) counter) 0
          ⟨initial, m.stackMap.frames.toList, false⟩ m.code.bytes.size q ∧ q.pending = [] := by
  have body : countdown.code = some countdownCode := rfl
  have accepted : (countdown.verify counter).run (Resolver.within (fun _ => .unknown) counter) =
      .ok () := by decide +kernel
  obtain ⟨m, initial, _, prepared, _⟩ := Method.verify_typing body accepted
  obtain ⟨_, finished⟩ := (stackMap_in_step body).1 m initial prepared
  exact ⟨body, accepted, m, initial, prepared, (finished accepted).1⟩

end ClassVerifier
