import ClassVerifier.Proofs.InstructionStarts
import ClassVerifier.Proofs.RecordedFrames
import ClassVerifier.Proofs.PlainChecks
import ClassVerifier.Proofs.Steps

/-! The walk over a body as the list of its visits, one for each instruction. What one visit hands
to the next is proved here for a walk that has got anywhere; the whole body comes later. -/
namespace ClassVerifier

/-- Control with the first frame may come to where the second one holds. The receiver is pending
there only if it was before, or if it is among the slots. -/
def Frame.Reaches (r : Resolver) (f g : Frame) : Prop :=
  f.Flows r g ∧ (g.thisPending → f.thisPending ∨ g.Holds .uninitializedThis)

/-- An instruction as the walk passes it, with the frames in front of it and behind it. -/
structure Visit where
  site : Located
  before : Frame
  flow : Flow
  after : Frame

namespace Body

/-- The walk from a position at an offset makes these visits and comes to its end. -/
inductive Visits (r : Resolver) (m : Body) : Nat → Position → List Visit → Prop
  | done {b : Nat} {p : Position} (past : m.code.bytes.size ≤ b) (cutOff : p.cutOff) :
      Visits r m b p []
  | visit {b : Nat} {i : Located} {p : Position} {f g : Frame} {pending : List Frame} {flow : Flow}
      {vs : List Visit} (inside : b < m.code.bytes.size)
      (decoded : Instruction.decode? m.code.bytes b = some i)
      (entered : (enter { p.frame with offset := i.offset } p.pending p.cutOff).run r =
        .ok (f, pending))
      (stepped : (m.step i.instruction f).run r = .ok (flow, g))
      (follow : Visits r m i.next ⟨g, pending, !flow.continues⟩ vs) :
      Visits r m b p (⟨i, f, flow, g⟩ :: vs)

variable {r : Resolver} {m : Body} {b : Nat} {i : Located} {p q : Position} {f g : Frame}
  {flow : Flow} {pending : List Frame} {vs : List Visit}

theorem walk_of_decode? (inside : b < m.code.bytes.size)
    (decoded : Instruction.decode? m.code.bytes b = some i) :
    m.walk b p = m.pass i p >>= fun q => m.walk i.next q := by
  rw [walk, dif_pos inside]
  split
  · next illegal => cases decoded.symm.trans illegal
  · next read =>
    cases decoded.symm.trans read
    rfl

theorem walk_of_size_le (past : m.code.bytes.size ≤ b) :
    m.walk b p = (Check.require p.cutOff .fallsThroughCodeEnd).located p.frame.offset := by
  rw [walk, dif_neg (Nat.not_lt.2 past)]

theorem pass_ok : (m.pass i p).run r = .ok q ↔ ∃ f pending flow g,
    (enter { p.frame with offset := i.offset } p.pending p.cutOff).run r = .ok (f, pending) ∧
      (m.step i.instruction f).run r = .ok (flow, g) ∧ q = ⟨g, pending, !flow.continues⟩ := by
  constructor
  · intro h
    obtain ⟨⟨f, pending⟩, entered, h⟩ := Check.bind_ok.1 h
    obtain ⟨⟨flow, g⟩, stepped, h⟩ := Check.bind_ok.1 h
    cases Check.pure_ok.1 h
    exact ⟨f, pending, flow, g, Check.located_ok.1 entered, Check.located_ok.1 stepped, rfl⟩
  · rintro ⟨f, pending, flow, g, entered, stepped, rfl⟩
    refine Check.bind_ok.2 ⟨(f, pending), Check.located_ok.2 entered, ?_⟩
    exact Check.bind_ok.2 ⟨(flow, g), Check.located_ok.2 stepped, Check.pure_ok.2 rfl⟩

/-- The frame in front of the instruction is noted once it is known. -/
theorem notes_pass : (m.pass i p).notes r =
    match (enter { p.frame with offset := i.offset } p.pending p.cutOff).run r with
    | .ok (f, _) => [(f, i.opcode)]
    | .error _ => [] := by
  have quietEnter := Check.silent_located i.offset
    (plain_enter { p.frame with offset := i.offset } p.pending p.cutOff).silent
  rw [pass, quietEnter.notes_bind]
  cases entered : (enter { p.frame with offset := i.offset } p.pending p.cutOff).run r with
  | ok taken =>
    rw [Check.located_ok.2 entered]
    have quietStep := Check.silent_located i.offset (plain_step m i.instruction taken.1).silent
    exact congrArg _ (Check.silent_bind quietStep fun _ => (Check.plain_pure _).silent).notes_eq
  | error fault =>
    split
    · next found => cases entered.symm.trans (Check.located_ok.1 found)
    · rfl

/-- A walk that comes to its end makes some visits. -/
theorem walk_visits (h : (m.walk b p).run r = .ok ()) : ∃ vs, Visits r m b p vs := by
  fun_induction walk m b p with
  | case1 b p inside illegal =>
    rw [Check.located_ok, Check.reject_ok] at h
    exact h.elim
  | case2 b p inside i decoded ih =>
    obtain ⟨q, passed, h⟩ := Check.bind_ok.1 h
    obtain ⟨f, pending, flow, g, entered, stepped, rfl⟩ := pass_ok.1 passed
    obtain ⟨vs, follow⟩ := ih _ h
    exact ⟨_, .visit inside decoded entered stepped follow⟩
  | case3 b p past =>
    rw [Check.located_ok, Check.require_ok] at h
    exact ⟨[], .done (Nat.le_of_not_lt past) h⟩

/-- Visits up to the end are a walk that comes to its end, and it notes the frame in front of each
instruction. -/
theorem Visits.walked (h : Visits r m b p vs) : (m.walk b p).run r = .ok () ∧
    (m.walk b p).notes r = vs.map fun v => (v.before, v.site.opcode) := by
  induction h with
  | done past cutOff =>
    rw [walk_of_size_le past]
    refine ⟨Check.located_ok.2 (Check.require_ok.2 cutOff), ?_⟩
    exact (Check.silent_located _ (Check.plain_require _ _).silent).notes_eq
  | visit inside decoded entered stepped follow ih =>
    have passed := pass_ok.2 ⟨_, _, _, _, entered, stepped, rfl⟩
    rw [walk_of_decode? inside decoded, Check.notes_bind_of_ok passed, notes_pass, entered]
    exact ⟨Check.bind_ok.2 ⟨_, passed, ih.1⟩, congrArg _ ih.2⟩

/-- Either the frame goes on, which takes that control comes from the instruction before and that
no frame is recorded here, or a recorded frame takes over. -/
theorem enter_ok {f g : Frame} {pending rest : List Frame} {cutOff : Bool}
    (h : (enter f pending cutOff).run r = .ok (g, rest)) :
    (cutOff = false ∧ g = f ∧ rest = pending ∧ ∀ next ∈ pending.head?, f.offset < next.offset) ∨
    ∃ recorded, pending = recorded :: rest ∧ recorded.offset = f.offset ∧ g = f.adopt recorded ∧
      (cutOff = false → f.Flows r recorded) := by
  cases pending with
  | nil =>
    obtain ⟨_, comes, h⟩ := Check.bind_ok.1 h
    cases Check.pure_ok.1 h
    left
    exact ⟨by simpa using comes, rfl, rfl, nofun⟩
  | cons recorded pending =>
    obtain ⟨_, comes, h⟩ := Check.bind_ok.1 h
    split at h
    · next here =>
      right
      split at h
      · obtain ⟨matched, flows, h⟩ := Check.bind_ok.1 h
        obtain ⟨_, required, h⟩ := Check.bind_ok.1 h
        cases Check.require_ok.1 required
        cases Check.pure_ok.1 h
        exact ⟨recorded, rfl, here, rfl, fun _ => flows⟩
      · next cut =>
        cases Check.pure_ok.1 h
        exact ⟨recorded, rfl, here, rfl, fun hc => absurd (by rw [hc]; rfl) cut⟩
    · left
      obtain ⟨_, later, h⟩ := Check.bind_ok.1 h
      cases Check.pure_ok.1 h
      have later : f.offset < recorded.offset := by simpa using later
      refine ⟨by simpa [Nat.not_le.2 later] using comes, rfl, rfl, fun next hnext => ?_⟩
      cases hnext
      exact later

/-- The frame that is carried is regular, and the frames to come are admitted and in order. -/
structure Sound (s : StackMap.Surroundings) (p : Position) : Prop where
  regular : p.frame.Regular
  maxLocals_eq : p.frame.maxLocals = s.maxLocals
  admitted : ∀ f ∈ p.pending, s.Admits f
  ascending : p.pending.Pairwise (·.offset < ·.offset)

variable {s : StackMap.Surroundings} {k : Nat}

theorem reaches_of_recorded {recorded : Frame} (h : f.Flows r recorded)
    (hr : s.Admits recorded) (hg : g.Agrees recorded) : f.Reaches r g := by
  refine ⟨((Frame.Agrees.refl f).flows_iff hg).2 h, fun hp => .inr ?_⟩
  rw [hg.thisPending_eq] at hp
  have used := hr.pending_iff.1 hp
  exact hg.holds_iff.2 (.inl (Frame.mem_locals_of_used used))

namespace Sound

/-- The frame in front of an instruction: the one that was carried or a recorded one. -/
theorem entered (hp : Sound s p)
    (h : (enter { p.frame with offset := k } p.pending p.cutOff).run r = .ok (f, pending)) :
    f.offset = k ∧ (f.Agrees p.frame ∨ ∃ recorded ∈ p.pending, f.Agrees recorded) ∧
      (p.cutOff = false → p.frame.Reaches r f) := by
  rcases enter_ok h with ⟨comes, rfl, _, _⟩ | ⟨recorded, hpend, here, rfl, flows⟩
  · have agrees := Frame.Agrees.at_offset p.frame k
    refine ⟨rfl, .inl agrees, fun _ => ⟨?_, .inl⟩⟩
    exact ((Frame.Agrees.refl _).flows_iff agrees).2 (.refl hp.regular)
  · have mem : recorded ∈ p.pending := hpend ▸ List.mem_cons_self
    have admitted := hp.admitted recorded mem
    have agrees : ({ p.frame with offset := k }.adopt recorded).Agrees recorded :=
      .adopt (hp.maxLocals_eq.trans admitted.maxLocals_eq.symm)
    refine ⟨rfl, .inr ⟨recorded, mem, agrees⟩, fun hc => ?_⟩
    have same := Frame.Agrees.at_offset p.frame k
    exact reaches_of_recorded ((same.flows_iff (.refl recorded)).1 (flows hc)) admitted agrees

theorem regular_entered (hp : Sound s p)
    (h : f.Agrees p.frame ∨ ∃ recorded ∈ p.pending, f.Agrees recorded) :
    f.Regular ∧ f.maxLocals = s.maxLocals := by
  rcases h with h | ⟨recorded, mem, h⟩
  · exact ⟨h.regular hp.regular, h.maxLocals_eq.trans hp.maxLocals_eq⟩
  · have admitted := hp.admitted recorded mem
    exact ⟨h.regular admitted.regular, h.maxLocals_eq.trans admitted.maxLocals_eq⟩

theorem suffix_entered
    (h : (enter { p.frame with offset := k } p.pending p.cutOff).run r = .ok (f, pending)) :
    pending <:+ p.pending := by
  rcases enter_ok h with ⟨_, _, rfl, _⟩ | ⟨recorded, hpend, _⟩
  · exact List.suffix_rfl
  · exact hpend ▸ List.suffix_cons recorded pending

/-- A recorded frame takes over at this instruction, or it is still to come. -/
theorem pending_entered (hp : Sound s p)
    (h : (enter { p.frame with offset := k } p.pending p.cutOff).run r = .ok (f, pending))
    {recorded : Frame} (hr : recorded ∈ p.pending) :
    recorded.offset = k ∧ f.Agrees recorded ∨ recorded ∈ pending := by
  rcases enter_ok h with ⟨_, _, rfl, _⟩ | ⟨first, hpend, here, rfl, _⟩
  · exact .inr hr
  · rw [hpend] at hr
    rcases List.mem_cons.1 hr with rfl | hr
    · left
      have admitted := hp.admitted recorded (hpend ▸ List.mem_cons_self)
      exact ⟨here, .adopt (hp.maxLocals_eq.trans admitted.maxLocals_eq.symm)⟩
    · exact .inr hr

/-- What is still to come is recorded for instructions further on. -/
theorem behind_entered (hp : Sound s p)
    (h : (enter { p.frame with offset := k } p.pending p.cutOff).run r = .ok (f, pending)) :
    ∀ recorded ∈ pending, k < recorded.offset := by
  intro recorded hr
  have ascending := hp.ascending
  rcases enter_ok h with ⟨_, _, rfl, behind⟩ | ⟨first, hpend, here, _, _⟩
  · cases hpend : p.pending with
    | nil =>
      rw [hpend] at hr
      cases hr
    | cons first rest =>
      rw [hpend] at hr ascending behind
      have hfirst : k < first.offset := behind first rfl
      rcases List.mem_cons.1 hr with rfl | hr
      · exact hfirst
      · exact Nat.lt_trans hfirst ((List.pairwise_cons.1 ascending).1 recorded hr)
  · rw [hpend] at ascending
    have here : first.offset = k := here
    exact here ▸ (List.pairwise_cons.1 ascending).1 recorded hr

/-- The walk goes on from a sound position to a sound one. -/
theorem stepped (hp : Sound s p)
    (entered : (enter { p.frame with offset := i.offset } p.pending p.cutOff).run r =
      .ok (f, pending))
    (stepped : (m.step i.instruction f).run r = .ok (flow, g)) :
    Sound s ⟨g, pending, !flow.continues⟩ := by
  obtain ⟨regular, maxLocals⟩ := hp.regular_entered (hp.entered entered).2.1
  have suffix := suffix_entered entered
  have effect := effect_ok regular (execute_ok.1 (step_ok regular stepped).1).1
  exact {
    regular := effect.regular regular
    maxLocals_eq := effect.maxLocals_eq.trans maxLocals
    admitted := fun f hf => hp.admitted f (suffix.mem hf)
    ascending := hp.ascending.sublist suffix.sublist }

end Sound

/-- What holds of a visit by itself. -/
structure Checked (r : Resolver) (m : Body) (v : Visit) : Prop where
  offset_eq : v.before.offset = v.site.offset
  regular : v.before.Regular
  executed : (m.execute v.site.instruction v.before).run r = .ok (v.flow, v.after)
  handled : m.isProtected v.before.offset →
    ∃ pending, (m.checkHandlers v.before pending).run r = .ok ()

theorem Checked.effect {v : Visit} (h : Checked r m v) :
    Effect r m v.site.instruction v.before v.flow v.after :=
  effect_ok h.regular (execute_ok.1 h.executed).1

namespace Visits

/-- The visits are those of all instructions from the offset on. -/
theorem covers (h : Visits r m b p vs) : Listing.Covers m.code.bytes b (vs.map (·.site)) := by
  induction h with
  | done past cutOff => exact .done past
  | visit inside decoded entered stepped follow ih => exact .cons inside decoded ih

theorem stepped (h : Visits r m b p vs) :
    ∀ v ∈ vs, (m.step v.site.instruction v.before).run r = .ok (v.flow, v.after) := by
  induction h with
  | done =>
    intro v hv
    cases hv
  | visit inside decoded entered stepped follow ih =>
    exact List.forall_mem_cons.2 ⟨stepped, ih⟩

theorem checked (h : Visits r m b p vs) (hp : Sound s p) : ∀ v ∈ vs, Checked r m v := by
  induction h with
  | done =>
    intro v hv
    cases hv
  | visit inside decoded entered stepped follow ih =>
    intro v hv
    rcases List.mem_cons.1 hv with rfl | hv
    · obtain ⟨offset, agrees, _⟩ := hp.entered entered
      obtain ⟨regular, _⟩ := hp.regular_entered agrees
      obtain ⟨executed, handled⟩ := step_ok regular stepped
      exact ⟨offset, regular, executed, handled⟩
    · exact ih (hp.stepped entered stepped) v hv

/-- Control that is not cut off reaches the first visit. -/
theorem first (h : Visits r m b p vs) (hp : Sound s p) (comes : p.cutOff = false) :
    ∃ v ∈ vs, v.site.offset = b ∧ p.frame.Reaches r v.before := by
  cases h with
  | done past cut =>
    rw [comes] at cut
    cases cut
  | visit inside decoded entered stepped follow =>
    have here := Instruction.decode?_offset decoded
    exact ⟨_, List.mem_cons_self, here, (hp.entered entered).2.2 comes⟩

/-- Control that goes on to the next instruction reaches the visit there. -/
theorem next (h : Visits r m b p vs) (hp : Sound s p) :
    ∀ v ∈ vs, v.flow.continues → ∃ w ∈ vs, w.site.offset = v.site.next ∧
      v.after.Reaches r w.before := by
  induction h with
  | done =>
    intro v hv
    cases hv
  | visit inside decoded entered stepped follow ih =>
    have hq := hp.stepped entered stepped
    intro v hv continues
    rcases List.mem_cons.1 hv with rfl | hv
    · obtain ⟨w, hw, hsite, reaches⟩ := follow.first hq (by rw [continues]; rfl)
      exact ⟨w, List.mem_cons_of_mem _ hw, hsite, reaches⟩
    · obtain ⟨w, hw, hsite, reaches⟩ := ih hq v hv continues
      exact ⟨w, List.mem_cons_of_mem _ hw, hsite, reaches⟩

/-- Every recorded frame takes over at its instruction. -/
theorem recorded (h : Visits r m b p vs) (hp : Sound s p)
    (starts : ∀ g ∈ p.pending, ∃ v ∈ vs, v.site.offset = g.offset) :
    ∀ g ∈ p.pending, ∃ v ∈ vs, v.site.offset = g.offset ∧ v.before.Agrees g := by
  induction h with
  | done =>
    intro g hg
    obtain ⟨v, hv, _⟩ := starts g hg
    cases hv
  | visit inside decoded entered stepped follow ih =>
    have ahead {g : Frame} (hg : g ∈ _) := starts g ((Sound.suffix_entered entered).mem hg)
    have later := ih (hp.stepped entered stepped) fun g hg => by
      obtain ⟨v, hv, hoffset⟩ := ahead hg
      have behind := hp.behind_entered entered g hg
      rcases List.mem_cons.1 hv with rfl | hv
      · exact absurd hoffset (Nat.ne_of_lt behind)
      · exact ⟨v, hv, hoffset⟩
    intro g hg
    rcases hp.pending_entered entered hg with ⟨here, agrees⟩ | hg
    · exact ⟨_, List.mem_cons_self, here.symm, agrees⟩
    · obtain ⟨v, hv, hsite, agrees⟩ := later g hg
      exact ⟨v, List.mem_cons_of_mem _ hv, hsite, agrees⟩

end Visits
end Body
end ClassVerifier
