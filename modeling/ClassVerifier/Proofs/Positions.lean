import ClassVerifier.Proofs.DecodedFrames
import ClassVerifier.Proofs.OrderlySteps
import ClassVerifier.Proofs.RepresentedSteps
import ClassVerifier.Proofs.Typing

/-! The positions that the walk over a body gets to, whether or not the body is accepted in the end.
At each of them the frame is one of the method, and the frames to come are those that are recorded
from there on. -/
namespace ClassVerifier
variable {r : Resolver} {c : ClassModel} {method : Method} {code : Code} {m : Body}
  {initial : Frame} {p q : Position} {i : Located} {f g : Frame} {pending : List Frame}
  {flow : Flow} {b k : Nat}

namespace Body

/-- The walk gets from one position, at an offset, to another one at another offset. -/
inductive Advances (r : Resolver) (m : Body) (b : Nat) (p : Position) : Nat → Position → Prop
  | refl : Advances r m b p b p
  | step {k : Nat} {i : Located} {q : Position} {f g : Frame} {pending : List Frame} {flow : Flow}
      (before : Advances r m b p k q) (inside : k < m.code.bytes.size)
      (decoded : Instruction.decode? m.code.bytes k = some i)
      (entered : (enter { q.frame with offset := i.offset } q.pending q.cutOff).run r =
        .ok (f, pending))
      (stepped : (m.step i.instruction f).run r = .ok (flow, g)) :
      Advances r m b p i.next ⟨g, pending, !flow.continues⟩

theorem Advances.trans {n : Nat} {t : Position} (first : Advances r m b p k q)
    (rest : Advances r m k q n t) : Advances r m b p n t := by
  induction rest with
  | refl => exact first
  | step before inside decoded entered stepped ih => exact .step ih inside decoded entered stepped

/-- Whatever the walk notes is the frame in front of an instruction that it gets to. -/
theorem advances_of_mem_notes {op : UInt8} (h : (f, op) ∈ (m.walk b p).notes r) :
    ∃ (i : Located) (q : Position) (pending : List Frame),
      Advances r m b p i.offset q ∧ i.opcode = op ∧
      (enter { q.frame with offset := i.offset } q.pending q.cutOff).run r = .ok (f, pending) := by
  fun_induction walk m b p with
  | case1 b p inside illegal =>
    rw [(Check.silent_located _ (Check.plain_reject _).silent).notes_eq] at h
    cases h
  | case2 b p inside i decoded ih =>
    have here := Instruction.decode?_offset decoded
    have noted (h : (f, op) ∈ (m.pass i p).notes r) : i.opcode = op ∧ ∃ pending,
        (enter { p.frame with offset := i.offset } p.pending p.cutOff).run r =
          .ok (f, pending) := by
      rw [notes_pass] at h
      split at h
      · next f' pending entered =>
        cases List.mem_singleton.1 h
        exact ⟨rfl, pending, entered⟩
      · cases h
    have start : Advances r m b p i.offset p := here ▸ .refl
    cases passed : (m.pass i p).run r with
    | error fault =>
      rw [Check.notes_bind_of_error passed] at h
      obtain ⟨opcode, pending, entered⟩ := noted h
      exact ⟨i, p, pending, start, opcode, entered⟩
    | ok q =>
      rw [Check.notes_bind_of_ok passed] at h
      rcases List.mem_append.1 h with h | h
      · obtain ⟨opcode, pending, entered⟩ := noted h
        exact ⟨i, p, pending, start, opcode, entered⟩
      · obtain ⟨f', pending, flow, g, entered, stepped, rfl⟩ := pass_ok.1 passed
        obtain ⟨j, t, pending', advances, opcode, there⟩ := ih _ h
        have first : Advances r m b p i.next ⟨g, pending, !flow.continues⟩ :=
          .step .refl inside decoded entered stepped
        exact ⟨j, t, pending', first.trans advances, opcode, there⟩
  | case3 b p past =>
    rw [(Check.silent_located _ (Check.plain_require _ _).silent).notes_eq] at h
    cases h

/-- What a body measures its frames against. -/
def surroundings (m : Body) : StackMap.Surroundings :=
  ⟨m.code.maxLocals.toNat, m.code.maxStack.toNat, m.listing, m.owner.pool⟩

/-- The position at the offset `b`: an instruction is listed there or it is the end, the frame is
one of the method, and the frames to come are those that are recorded from `b` on. -/
structure InStep (m : Body) (b : Nat) (q : Position) : Prop where
  start : m.listing.isStart b ∨ b = m.code.bytes.size
  represented : m.surroundings.Represents q.frame
  pending_eq : q.pending = m.stackMap.frames.toList.filter (b ≤ ·.offset)

end Body

namespace Code.Prepared

theorem surroundings_eq (p : code.Prepared r c method m initial) :
    m.surroundings = ⟨code.maxLocals.toNat, code.maxStack.toNat, m.listing, c.pool⟩ := by
  rw [Body.surroundings, p.code_eq, p.owner_eq]

theorem represents_initial (p : code.Prepared r c method m initial) :
    m.surroundings.Represents initial := by
  rw [p.surroundings_eq]
  exact StackMap.Surroundings.represents_entry p.entry_eq

theorem represents_recorded (p : code.Prepared r c method m initial) :
    ∀ f ∈ m.stackMap.frames.toList, m.surroundings.Represents f := by
  have h := p.represents_initial
  rw [p.surroundings_eq] at h ⊢
  exact StackMap.ofPayload_represents p.admits_initial h p.stackMap_eq

/-- Where the code goes on behind an instruction, or begins, an instruction is listed. -/
private theorem start_or_end (p : code.Prepared r c method m initial) (le : b ≤ m.code.bytes.size)
    (known : m.code.bytes.size ≤ b ∨ ∃ i ∈ m.listing.body, i.offset = b) :
    m.listing.isStart b ∨ b = m.code.bytes.size := by
  rcases known with past | start
  · exact .inr (Nat.le_antisymm le past)
  · exact .inl ((Listing.isStart_iff p.ofCode_eq).2 start)

theorem inStep_start (p : code.Prepared r c method m initial) :
    m.InStep 0 ⟨initial, m.stackMap.frames.toList, false⟩ where
  start := p.start_or_end (Nat.zero_le _) (Listing.covers_ofCode p.ofCode_eq).first
  represented := p.represents_initial
  pending_eq := (List.filter_eq_self.2 fun _ _ => decide_eq_true (Nat.zero_le _)).symm

theorem sound_of_inStep (p : code.Prepared r c method m initial) (h : m.InStep b q) :
    Body.Sound ⟨code.maxLocals.toNat, code.maxStack.toNat, m.listing, c.pool⟩ q where
  regular := h.represented.regular
  maxLocals_eq := by
    rw [h.represented.maxLocals_eq, p.surroundings_eq]
  admitted := by
    rw [h.pending_eq]
    exact fun f hf => p.recorded.admitted f (List.mem_filter.1 hf).1
  ascending := by
    rw [h.pending_eq]
    exact p.recorded.ascending.filter _

/-- The frame in front of an instruction is one of the method, carried along or recorded. -/
theorem represents_entered (p : code.Prepared r c method m initial) (h : m.InStep b q)
    {offset : Nat}
    (entered : (Body.enter { q.frame with offset } q.pending q.cutOff).run r = .ok (f, pending)) :
    m.surroundings.Represents f := by
  have carried : m.surroundings.Represents { q.frame with offset } :=
    h.represented.agrees (.at_offset _ _) rfl
  rcases Body.enter_ok entered with ⟨_, rfl, _, _⟩ | ⟨recorded, hpend, _, rfl, _⟩
  · exact carried
  · have mem : recorded ∈ q.pending := hpend ▸ List.mem_cons_self
    rw [h.pending_eq] at mem
    have here := p.represents_recorded recorded (List.mem_filter.1 mem).1
    refine here.agrees (.adopt ?_) ?_
    · exact carried.maxLocals_eq.trans here.maxLocals_eq.symm
    · exact carried.maxStack_eq.trans here.maxStack_eq.symm

/-- Entering an instruction takes off the frame that is recorded there, and that one only. -/
theorem pending_entered (p : code.Prepared r c method m initial) (h : m.InStep b q)
    (entered : (Body.enter { q.frame with offset := b } q.pending q.cutOff).run r =
      .ok (f, pending)) :
    pending = m.stackMap.frames.toList.filter (b < ·.offset) := by
  have behind := (p.sound_of_inStep h).behind_entered entered
  have ahead := h.pending_eq
  rcases Body.enter_ok entered with ⟨_, _, rfl, _⟩ | ⟨recorded, hpend, here, _, _⟩
  · rw [ahead]
    refine List.filter_congr fun g hg => decide_eq_decide.2 ⟨fun hle => ?_, Nat.le_of_lt⟩
    apply behind g
    rw [ahead]
    exact List.mem_filter.2 ⟨hg, decide_eq_true hle⟩
  · have here : recorded.offset = b := here
    calc pending = pending.filter (b < ·.offset) :=
          (List.filter_eq_self.2 fun g hg => decide_eq_true (behind g hg)).symm
      _ = q.pending.filter (b < ·.offset) := by
          rw [hpend, List.filter_cons_of_neg (by simp [here])]
      _ = m.stackMap.frames.toList.filter (b < ·.offset) := by
          rw [ahead, List.filter_filter]
          refine List.filter_congr fun g _ => ?_
          rw [← Bool.decide_and, decide_eq_decide]
          exact and_iff_left_of_imp Nat.le_of_lt

/-- A frame that is recorded for an instruction takes over there. -/
theorem agrees_entered (p : code.Prepared r c method m initial) (h : m.InStep b q)
    (entered : (Body.enter { q.frame with offset := b } q.pending q.cutOff).run r =
      .ok (f, pending)) (hg : g ∈ m.stackMap.frames.toList) (here : g.offset = b) :
    f.Agrees g := by
  have sound := p.sound_of_inStep h
  have mem : g ∈ q.pending := by
    rw [h.pending_eq]
    exact List.mem_filter.2 ⟨hg, decide_eq_true (Nat.le_of_eq here.symm)⟩
  rcases sound.pending_entered entered mem with h | later
  · exact h.2
  · have := sound.behind_entered entered g later
    omega

/-- Wherever the walk gets to, it reads the instruction that is listed, or is at the end. -/
theorem read_or_end (p : code.Prepared r c method m initial) (h : m.InStep b q) :
    b = m.code.bytes.size ∨
      ∃ i, Instruction.decode? m.code.bytes b = some i ∧ m.listing.at? b = some i := by
  rcases h.start with start | past
  · obtain ⟨i, found⟩ := Option.isSome_iff_exists.1 start
    exact .inr ⟨i, Listing.decode?_of_at? p.ofCode_eq found, found⟩
  · exact .inl past

/-- What an instruction allocates is known by its offset. -/
private theorem allocates_of_at? (found : m.listing.at? b = some i) (index : UInt16)
    (new : i.instruction = .new index) :
    ∃ index, m.surroundings.listing.allocation? b = some index := by
  obtain ⟨offset, opcode, length, instruction⟩ := i
  subst new
  refine ⟨index, ?_⟩
  rw [Body.surroundings, Listing.allocation?, found]

/-- No frame is recorded between an instruction and the next one. -/
private theorem lt_offset_iff (p : code.Prepared r c method m initial)
    (hi : i ∈ m.listing.body) (hg : g ∈ m.stackMap.frames.toList) :
    i.offset < g.offset ↔ i.next ≤ g.offset := by
  have covers := Listing.covers_ofCode p.ofCode_eq
  obtain ⟨j, hj, here⟩ := (Listing.isStart_iff p.ofCode_eq).1 (p.recorded.starts g hg)
  rw [← here]
  refine ⟨covers.next_le hi hj, fun behind => ?_⟩
  have := Instruction.lt_next_of_decode? (covers.mem hi).1
  omega

/-- The walk goes on from one position to the next. -/
theorem inStep_next (p : code.Prepared r c method m initial) (h : m.InStep b q)
    (inside : b < m.code.bytes.size) (decoded : Instruction.decode? m.code.bytes b = some i)
    (entered : (Body.enter { q.frame with offset := i.offset } q.pending q.cutOff).run r =
      .ok (f, pending))
    (stepped : (m.step i.instruction f).run r = .ok (flow, g)) :
    m.InStep i.next ⟨g, pending, !flow.continues⟩ := by
  obtain ⟨j, read, found⟩ := (p.read_or_end h).resolve_left (Nat.ne_of_lt inside)
  cases decoded.symm.trans read
  obtain ⟨hi, rfl⟩ := (Listing.at?_eq_some_iff p.ofCode_eq).1 found
  have represented := p.represents_entered h entered
  have offset := ((p.sound_of_inStep h).entered entered).1
  constructor
  · have next := (Listing.covers_ofCode p.ofCode_eq).next hi
    exact p.start_or_end (Instruction.next_le_size decoded) next
  · have executed := (Body.execute_ok.1 (Body.step_ok represented.regular stepped).1).1
    have this : ∃ name, m.thisType = .reference name := ⟨c.name, p.thisType_eq⟩
    refine Body.represents_effect this (fun index new => ?_) represented executed
    rw [offset]
    exact allocates_of_at? found index new
  · rw [p.pending_entered h entered]
    exact List.filter_congr fun g hg => decide_eq_decide.2 (p.lt_offset_iff hi hg)

/-- Wherever the walk gets, it is in step. -/
theorem inStep (p : code.Prepared r c method m initial)
    (h : m.Advances r 0 ⟨initial, m.stackMap.frames.toList, false⟩ b q) : m.InStep b q := by
  induction h with
  | refl => exact p.inStep_start
  | step before inside decoded entered stepped ih =>
    exact p.inStep_next ih inside decoded entered stepped

end Code.Prepared
end ClassVerifier
