import ClassVerifier.Proofs.HandlerEdges

/-! The control-flow graph of a body, and how what holds of frames is carried along its paths. -/
namespace ClassVerifier

/-- How control gets from one instruction to another. -/
inductive Exit where
  | next
  | jump
  | thrown
  deriving DecidableEq

namespace Body

/-- Control may go to the next instruction, to a target of a branch or switch, or to a handler. -/
inductive Edge (m : Body) (i : Located) : Exit → Located → Prop
  | next {j : Located} (continues : i.instruction.continues)
      (lands : m.listing.at? i.next = some j) : Edge m i .next j
  | jump {target : Int} {j : Located} (mem : target ∈ i.instruction.targets)
      (lands : m.listing.target? target = some j) : Edge m i .jump j
  | thrown {h : Handler} {j : Located} (mem : h ∈ m.code.handlers) (covers : h.covers i.offset)
      (lands : m.listing.at? h.target.toNat = some j) : Edge m i .thrown j

/-- A path from the first instruction to another one: the instructions that are left on the way, and
how each of them is left. -/
inductive Path (m : Body) : List (Located × Exit) → Located → Prop
  | start {i : Located} (first : m.listing.at? 0 = some i) : Path m [] i
  | edge {steps : List (Located × Exit)} {i j : Located} {exit : Exit} (path : Path m steps i)
      (edge : m.Edge i exit j) : Path m (steps ++ [(i, exit)]) j

variable {m : Body} {steps : List (Located × Exit)} {i x : Located} {exit : Exit}

/-- An instruction on a path is reached by a shorter one. -/
theorem Path.shorter (path : m.Path steps x) (mem : (i, exit) ∈ steps) :
    ∃ before, m.Path before i ∧ before.length < steps.length := by
  induction path with
  | start => cases mem
  | edge path edge ih =>
    rw [List.length_append, List.length_singleton]
    rcases List.mem_append.1 mem with mem | mem
    · obtain ⟨before, path, hlt⟩ := ih mem
      exact ⟨before, path, by omega⟩
    · cases List.mem_singleton.1 mem
      exact ⟨_, path, Nat.lt_succ_self _⟩

end Body

/-- The frame that a visit hands on by each way out. -/
inductive Visit.Hands (v : Visit) : Exit → Frame → Prop
  | next : v.Hands .next v.after
  | jump (branches : v.site.instruction.targets ≠ []) : v.Hands .jump v.after
  | thrown (name : String) : v.Hands .thrown (v.before.catching (.reference name))

/-- What is handed on holds no uninitialized slot that was not there before, unless it goes to the
next instruction and has just been allocated. -/
theorem Visit.Hands.holds {r : Resolver} {m : Body} {v : Visit} {exit : Exit} {f : Frame}
    (hands : v.Hands exit f) (checked : m.Checked r v) (this : m.thisType.isUninitialized = false)
    {t : SlotType} (ht : t.isUninitialized) (hold : f.Holds t) :
    v.before.Holds t ∨ exit = .next ∧
      (∃ index, v.site.instruction = .new index) ∧ t = .uninitialized v.site.offset := by
  rw [← checked.offset_eq]
  cases hands with
  | next => exact (checked.effect.holds this ht hold).imp_right fun new => ⟨rfl, new⟩
  | jump branches =>
    refine (checked.effect.holds this ht hold).imp_right fun ⟨⟨index, new⟩, _⟩ => ?_
    rw [new] at branches
    exact absurd rfl branches
  | thrown name =>
    rcases hold with hl | hs
    · exact .inl (.inl hl)
    · rw [List.mem_singleton.1 hs] at ht
      cases ht

namespace Code.Prepared
variable {r : Resolver} {c : ClassModel} {method : Method} {code : Code} {m : Body}
  {initial : Frame} {vs : List Visit} {steps : List (Located × Exit)} {x j : Located} {exit : Exit}

/-- What is handed on along an edge reaches the visit at its end. -/
theorem follow (p : code.Prepared r c method m initial) (t : m.Typing r initial vs) {v : Visit}
    (hv : v ∈ vs) (edge : m.Edge v.site exit j) :
    ∃ w ∈ vs, w.site = j ∧ ∃ f, v.Hands exit f ∧ f.Reaches r w.before := by
  have same {w : Visit} {b : Nat} (hw : w ∈ vs) (ho : w.site.offset = b)
      (lands : m.listing.at? b = some j) : w.site = j := by
    have start := p.at?_site t hw
    rw [ho, lands] at start
    exact (Option.some.inj start).symm
  cases edge with
  | next continues lands =>
    rw [← (t.checked v hv).effect.continues_eq] at continues
    obtain ⟨w, hw, hsite, reaches⟩ := t.next v hv continues
    exact ⟨w, hw, same hw hsite lands, v.after, .next, reaches⟩
  | jump mem lands =>
    obtain ⟨_, _, w, hw, hsite, _, reaches⟩ := t.jump hv mem
    rw [← hsite, Listing.target?, if_neg (by omega)] at lands
    exact ⟨w, hw, same hw rfl lands, v.after, .jump (List.ne_nil_of_mem mem), reaches⟩
  | thrown mem covers lands =>
    rw [p.code_eq] at mem
    obtain ⟨caught, _, type, _, w, hw, hsite, reaches⟩ := p.thrown t hv mem covers
    obtain ⟨name, rfl⟩ := Handler.caughtType_ok type
    exact ⟨w, hw, same hw hsite lands, _, .thrown name, reaches⟩

/-- What holds at the beginning, and is handed on by every visit, holds at the end of every path. -/
theorem along_path (p : code.Prepared r c method m initial) (t : m.Typing r initial vs)
    {P : List (Located × Exit) → Frame → Prop}
    (start : ∀ g : Frame, g.Regular → initial.Reaches r g → P [] g)
    (step : ∀ v ∈ vs, ∀ steps exit (f g : Frame), P steps v.before → v.Hands exit f → g.Regular →
      f.Reaches r g → P (steps ++ [(v.site, exit)]) g)
    (path : m.Path steps x) : ∃ v ∈ vs, v.site = x ∧ P steps v.before := by
  induction path with
  | start first =>
    obtain ⟨v, hv, hsite, reaches⟩ := t.first
    have here := p.at?_site t hv
    rw [hsite, first] at here
    refine ⟨v, hv, (Option.some.inj here).symm, ?_⟩
    exact start v.before (t.checked v hv).regular reaches
  | edge path edge ih =>
    obtain ⟨v, hv, rfl, holds⟩ := ih
    obtain ⟨w, hw, rfl, f, hands, reaches⟩ := p.follow t hv edge
    exact ⟨w, hw, rfl, step v hv _ _ f w.before holds hands (t.checked w hw).regular reaches⟩

end Code.Prepared
end ClassVerifier
