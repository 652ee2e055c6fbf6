import ClassVerifier.Proofs.SimulatedSteps
import ClassVerifier.Proofs.Typing

/-! Walks keep simulations. Where the walk over a method comes to its end, so does the walk over the
same instructions with other tables that ask for no more, and it visits the same instructions with
frames that simulate those of the first walk. -/
namespace ClassVerifier
open ClassVerifier.Frame (Simulation)
variable {r : Resolver} {S : SlotType → SlotType → Prop} {R : Frame → Frame → Prop} {m n : Body}
  {f g : Frame}

/-- The first frame is recorded in place of the second one: it stands at the same offset, and takes
whatever simulates what the other one takes. -/
structure Frame.Replaces (r : Resolver) (R : Frame → Frame → Prop) (f g : Frame) : Prop where
  offset_eq : f.offset = g.offset
  flows : ∀ f' g' : Frame, R f' g' → g'.Flows r g → f'.Flows r f
  adopt : ∀ f' g' : Frame, R f' g' → R (f'.adopt f) (g'.adopt g)

/-- A recorded frame stays in its place. -/
theorem Frame.Replaces.self (f : Frame) : f.Replaces r Eq f where
  offset_eq := rfl
  flows := by rintro g _ rfl flows; exact flows
  adopt := by rintro g _ rfl; rfl

namespace StackMap

private theorem search_replaced {frames frames' : Array Frame} {target : Int} {low high : Nat}
    (replaced : List.Forall₂ (Frame.Replaces r R) frames'.toList frames.toList)
    (found : search frames target low high = some g) :
    ∃ f, search frames' target low high = some f ∧ f.Replaces r R g := by
  have beside {k : Nat} {g : Frame} (hg : frames[k]? = some g) :
      ∃ f, frames'[k]? = some f ∧ f.Replaces r R g := by
    obtain ⟨hk, rfl⟩ := List.getElem?_eq_some_iff.1 (Array.getElem?_toList ▸ hg)
    have hk' : k < frames'.toList.length := replaced.length_eq ▸ hk
    refine ⟨frames'.toList[k], ?_, replaced.get hk' hk⟩
    rw [← Array.getElem?_toList, List.getElem?_eq_getElem hk']
  fun_induction search frames target low high with
  | case1 => cases found
  | case2 low high inside middle g' hg here =>
    cases found
    obtain ⟨f, hf, replaces⟩ := beside hg
    refine ⟨f, ?_, replaces⟩
    rw [search, dif_pos inside]
    dsimp only
    rw [hf]
    exact if_pos (replaces.offset_eq ▸ here)
  | case3 low high inside middle g' hg elsewhere less ih =>
    obtain ⟨f, hf, replaces⟩ := beside hg
    rw [search, dif_pos inside]
    dsimp only
    rw [hf]
    dsimp only
    rw [replaces.offset_eq, if_neg elsewhere, if_pos less]
    exact ih found
  | case4 low high inside middle g' hg elsewhere less ih =>
    obtain ⟨f, hf, replaces⟩ := beside hg
    rw [search, dif_pos inside]
    dsimp only
    rw [hf]
    dsimp only
    rw [replaces.offset_eq, if_neg elsewhere, if_neg less]
    exact ih found
  | case5 => cases found

/-- Where a frame is found, the one that is recorded in its place is found. -/
theorem frameAt?_replaced {a b : StackMap} {target : Int}
    (replaced : List.Forall₂ (Frame.Replaces r R) a.frames.toList b.frames.toList)
    (found : b.frameAt? target = some g) : ∃ f, a.frameAt? target = some f ∧ f.Replaces r R g := by
  have size : a.frames.size = b.frames.size := replaced.length_eq
  rw [frameAt?, size]
  exact search_replaced replaced found

end StackMap

namespace Body

/-- Recorded frames in place of others ask for no more than those. -/
theorem recorded_of_replaced
    (replaced : List.Forall₂ (Frame.Replaces r R) n.stackMap.frames.toList m.stackMap.frames.toList)
    {target : Int} {recorded : Frame} (found : m.stackMap.frameAt? target = some recorded) :
    ∃ recorded', n.stackMap.frameAt? target = some recorded' ∧
      ∀ f g : Frame, R f g → g.Flows r recorded → f.Flows r recorded' := by
  obtain ⟨recorded', found', replaces⟩ := StackMap.frameAt?_replaced replaced found
  exact ⟨recorded', found', replaces.flows⟩

/-- The walks stand at the same place with related frames, and frames are still to come in place of
others. -/
structure Beside (r : Resolver) (R : Frame → Frame → Prop) (p q : Position) : Prop where
  frame : R p.frame q.frame
  pending : List.Forall₂ (Frame.Replaces r R) p.pending q.pending
  cutOff_eq : p.cutOff = q.cutOff

/-- A visit of the same instruction with related frames in front of it. -/
def VisitsAlike (R : Frame → Frame → Prop) (v w : Visit) : Prop :=
  v.site = w.site ∧ R v.before w.before

private theorem follows_enter (b : R f g) (offset : f.offset = g.offset)
    {pending pending' : List Frame} (replaced : List.Forall₂ (Frame.Replaces r R) pending' pending)
    (cutOff : Bool) : (enter f pending' cutOff).Follows r
      (fun p q => R p.1 q.1 ∧ List.Forall₂ (Frame.Replaces r R) p.2 q.2)
      (enter g pending cutOff) := by
  cases replaced with
  | nil => exact .same fun _ _ => .pure ⟨b, .nil⟩
  | @cons recorded' recorded rest' rest first others =>
    have taken := first.adopt f g b
    unfold enter
    dsimp only
    rw [offset, first.offset_eq]
    refine .same fun _ _ => ?_
    by_cases here : recorded.offset = g.offset
    · rw [if_pos here, if_pos here]
      cases cutOff with
      | true => exact .pure ⟨taken, others⟩
      | false =>
        refine .test (first.flows f g b) (fun _ => nofun) fun _ => ?_
        exact .same fun _ _ => .pure ⟨taken, others⟩
    · rw [if_neg here, if_neg here]
      exact .same fun _ _ => .pure ⟨b, .cons first others⟩

/-- Where one walk makes its visits up to the end, the other one makes such visits. -/
theorem Visits.simulated (h : Simulation r S R) (t : m.RelaxedBy r R n) {b : Nat}
    {p q : Position} {vs : List Visit} (visits : m.Visits r b q vs) (beside : Beside r R p q) :
    ∃ us, (m.withTables n).Visits r b p us ∧ List.Forall₂ (VisitsAlike R) us vs := by
  have bytes : (m.withTables n).code.bytes = m.code.bytes := t.bytes_eq
  induction visits generalizing p with
  | done past cutOff => exact ⟨[], .done (bytes ▸ past) (beside.cutOff_eq.trans cutOff), .nil⟩
  | @visit b i q g after pending flow vs inside decoded entered stepped follow ih =>
    have moved := h.at_offset i.offset beside.frame
    have enters := follows_enter moved rfl beside.pending q.cutOff
    obtain ⟨⟨f, pending'⟩, entered', related, replaced⟩ := enters _ entered
    obtain ⟨⟨_, after'⟩, stepped', rfl, onward⟩ := t.follows_step h related i.instruction _ stepped
    obtain ⟨us, follow', alike⟩ := ih (p := ⟨after', pending', !_⟩) ⟨onward, replaced, rfl⟩
    rw [← beside.cutOff_eq] at entered'
    refine ⟨_, .visit ?_ ?_ entered' stepped' follow', .cons ⟨rfl, related⟩ alike⟩
    · exact bytes ▸ inside
    · exact bytes ▸ decoded

end Body

variable {c : ClassModel} {method method' : Method} {code code' : Code} {initial initial' : Frame}

/-- Notes whose frames come from those of other notes. -/
theorem notes_eq_map (convert : Frame → Frame) {notes notes' : List (Frame × UInt8)}
    (h : List.Forall₂ (fun a b => a.1 = convert b.1 ∧ a.2 = b.2) notes' notes) :
    notes' = notes.map (Prod.map convert id) := by
  have same : List.Forall₂ Eq notes' (notes.map (Prod.map convert id)) :=
    List.forall₂_map_right_iff.2 (h.imp fun _ _ both => Prod.ext both.1 both.2)
  rwa [List.forall₂_eq_eq_eq] at same

/-- A method is accepted if it can be walked over in place of an accepted one, and the frames that
it has in front of the instructions simulate those of the other one. -/
theorem Method.verify_simulated (h : Simulation r S R) (body : method.code = some code)
    (body' : method'.code = some code')
    (prepared : ∀ m initial, code.Prepared r c method m initial → ∃ n initial',
      code'.Prepared r c method' (m.withTables n) initial' ∧ m.RelaxedBy r R n ∧
        List.Forall₂ (Frame.Replaces r R) n.stackMap.frames.toList m.stackMap.frames.toList ∧
        R initial' initial)
    (accepted : (method.verify c).run r = .ok ()) :
    (method'.verify c).run r = .ok () ∧
      List.Forall₂ (fun a b => R a.1 b.1 ∧ a.2 = b.2) ((method'.verify c).notes r)
        ((method.verify c).notes r) := by
  obtain ⟨m, initial, vs, prepare, visits⟩ := prepared_of_verify body accepted
  have p := Code.prepare_ok prepare
  obtain ⟨n, initial', p', relaxed, replaced, related⟩ := prepared m initial p
  obtain ⟨us, visits', alike⟩ := visits.simulated (p := ⟨initial', n.stackMap.frames.toList, false⟩)
    h relaxed ⟨related, replaced, rfl⟩
  obtain ⟨accepted', notes'⟩ := p'.verified body' visits'
  refine ⟨accepted', ?_⟩
  rw [notes', (p.verified body visits).2, List.forall₂_map_left_iff, List.forall₂_map_right_iff]
  exact alike.imp fun v w same => ⟨same.2, same.1 ▸ rfl⟩

end ClassVerifier
