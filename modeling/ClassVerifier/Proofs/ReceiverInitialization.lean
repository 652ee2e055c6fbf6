import ClassVerifier.Proofs.Paths

/-! Constructors initialize their receiver exactly once. The receiver is pending on every path up to
the call that initializes it, and from then on no frame holds it as uninitialized any more. -/
namespace ClassVerifier
variable {r : Resolver} {c : ClassModel} {method : Method} {code : Code} {m : Body}
  {initial : Frame} {vs : List Visit} {steps : List (Located × Exit)} {x : Located}

/-- The step calls a constructor on the pending receiver, with one of the given frames in front of
it, and goes on to the next instruction. -/
def Body.Initializes (m : Body) (frames : Nat → List Frame) (step : Located × Exit) : Prop :=
  step.2 = .next ∧ ∃ f ∈ frames step.1.offset, ∃ owner,
    m.Constructs step.1.instruction f owner .uninitializedThis

/-- Exactly one step initializes the receiver, with a constructor of the class itself or of its
superclass. -/
def Body.InitializesOnce (m : Body) (frames : Nat → List Frame) (steps : List (Located × Exit)) :
    Prop :=
  ∃ before i after f owner, steps = before ++ (i, .next) :: after ∧ frames i.offset = [f] ∧
    m.Constructs i.instruction f owner .uninitializedThis ∧
    (owner = m.owner.name ∨ m.owner.superclass = some owner) ∧
    ∀ step ∈ before ++ after, ¬m.Initializes frames step

namespace Body
variable {frames : Nat → List Frame} {step : Located × Exit}

private theorem not_initializes_concat (none : ∀ s ∈ steps, ¬m.Initializes frames s)
    (not : ¬m.Initializes frames step) : ∀ s ∈ steps ++ [step], ¬m.Initializes frames s :=
  List.forall_mem_append.2 ⟨none, List.forall_mem_singleton.2 not⟩

/-- One more step that does not initialize the receiver. -/
private theorem InitializesOnce.concat (once : m.InitializesOnce frames steps)
    (not : ¬m.Initializes frames step) : m.InitializesOnce frames (steps ++ [step]) := by
  obtain ⟨before, i, after, f, owner, rfl, frame, call, near, none⟩ := once
  refine ⟨before, i, after ++ [step], f, owner, List.append_assoc _ _ _, frame, call, near, ?_⟩
  rw [← List.append_assoc]
  exact not_initializes_concat none not

end Body

/-- The receiver is not pending, and nothing holds it as uninitialized. -/
def Frame.Settled (f : Frame) : Prop :=
  f.thisPending = false ∧ ¬f.Holds .uninitializedThis

theorem Frame.Settled.reaches {f g : Frame} (h : f.Settled) (regular : g.Regular)
    (reaches : f.Reaches r g) : g.Settled := by
  have free : ¬g.Holds .uninitializedThis := fun hold => h.2 (reaches.1.holds regular rfl hold)
  refine ⟨Bool.eq_false_iff.2 fun pending => ?_, free⟩
  rcases reaches.2 pending with before | hold
  · rw [h.1] at before
    cases before
  · exact free hold

/-- The receiver of a constructor call is on the stack. -/
theorem Body.Constructs.holds {i : Instruction} {f : Frame} {owner : String}
    {receiver : SlotType} (h : m.Constructs i f owner receiver) : f.Holds receiver := by
  obtain ⟨_, _, _, _, _, _, _, _, slot⟩ := h
  exact .inr (List.mem_of_getElem? slot)

namespace Code.Prepared

/-- Where the receiver is settled, it stays settled on every way out. -/
theorem settled_hands (p : code.Prepared r c method m initial) (t : m.Typing r initial vs)
    {v : Visit} (hv : v ∈ vs) {exit : Exit} {f : Frame} (settled : v.before.Settled)
    (hands : v.Hands exit f) : f.Settled := by
  have checked := t.checked v hv
  have this := p.thisType_initialized
  have free : ¬f.Holds .uninitializedThis := fun hold => by
    rcases hands.holds checked this rfl hold with before | ⟨_, _, here⟩
    · exact settled.2 before
    · cases here
  have after : v.after.thisPending = false := by
    rw [checked.effect.thisPending_eq, settled.1]
    intro flow
    obtain ⟨⟨_, call, _⟩, _⟩ := (flow ▸ checked.effect).settles this
    exact settled.2 call.holds
  refine ⟨?_, free⟩
  cases hands with
  | next => exact after
  | jump => exact after
  | thrown => exact settled.1

/-- Where the receiver is settled, no step initializes it. -/
theorem settled_not_initializes {frames : Nat → List Frame} {v : Visit} {exit : Exit}
    (frame : frames v.site.offset = [v.before]) (settled : v.before.Settled) :
    ¬m.Initializes frames (v.site, exit) := by
  rintro ⟨_, f, hf, owner, call⟩
  rw [frame] at hf
  rw [List.mem_singleton.1 hf] at call
  exact settled.2 call.holds

/-- Where the receiver is pending, it stays so on every way out, except behind the call of a
constructor of this class or its superclass. -/
theorem pending_hands (p : code.Prepared r c method m initial) (t : m.Typing r initial vs)
    {frames : Nat → List Frame} {v : Visit} (hv : v ∈ vs)
    (frame : frames v.site.offset = [v.before]) {exit : Exit} {f : Frame}
    (pending : v.before.thisPending) (hands : v.Hands exit f) :
    (f.thisPending ∧ ¬m.Initializes frames (v.site, exit)) ∨
      exit = .next ∧ f.Settled ∧ ∃ owner,
        m.Constructs v.site.instruction v.before owner .uninitializedThis ∧
        (owner = m.owner.name ∨ m.owner.superclass = some owner) := by
  have effect := (t.checked v hv).effect
  have settles (flow : v.flow = .initialized) :=
    (flow ▸ effect).settles p.thisType_initialized
  cases hands with
  | next =>
    by_cases flow : v.flow = .initialized
    · obtain ⟨call, settled⟩ := settles flow
      exact .inr ⟨rfl, settled, call⟩
    · left
      refine ⟨(effect.thisPending_eq flow).trans pending, ?_⟩
      rintro ⟨_, g, hg, owner, call⟩
      rw [frame] at hg
      rw [List.mem_singleton.1 hg] at call
      exact flow (effect.eq_initialized call)
  | jump branches =>
    left
    have flow : v.flow ≠ .initialized := fun flow => by
      obtain ⟨⟨_, ⟨_, _, _, call, _⟩, _⟩, _⟩ := settles flow
      rw [call] at branches
      exact branches rfl
    exact ⟨(effect.thisPending_eq flow).trans pending, fun h => by cases h.1⟩
  | thrown => exact .inl ⟨pending, fun h => by cases h.1⟩

/-- On a path through a constructor, the receiver is pending as long as no step has initialized it,
and settled from then on. -/
theorem pending_or_once (p : code.Prepared r c method m initial) (t : m.Typing r initial vs)
    {frames : Nat → List Frame} (single : ∀ v ∈ vs, frames v.site.offset = [v.before])
    (pending : initial.thisPending) (path : m.Path steps x) :
    ∃ v ∈ vs, v.site = x ∧ (v.before.thisPending ∧ (∀ step ∈ steps, ¬m.Initializes frames step) ∨
      v.before.Settled ∧ m.InitializesOnce frames steps) := by
  apply p.along_path t (P := fun steps f =>
    f.thisPending ∧ (∀ step ∈ steps, ¬m.Initializes frames step) ∨
      f.Settled ∧ m.InitializesOnce frames steps) _ _ path
  · intro g regular reaches
    exact .inl ⟨reaches.1.thisPending pending, fun step hs => by cases hs⟩
  · intro v hv steps exit f g holds hands regular reaches
    have frame := single v hv
    rcases holds with ⟨pending, none⟩ | ⟨settled, once⟩
    · rcases p.pending_hands t hv frame pending hands with ⟨pending, not⟩ | ⟨rfl, settled, call⟩
      · left
        exact ⟨reaches.1.thisPending pending, Body.not_initializes_concat none not⟩
      · right
        obtain ⟨owner, call, near⟩ := call
        refine ⟨settled.reaches regular reaches, steps, v.site, [], v.before, owner, rfl, frame,
          call, near, ?_⟩
        rwa [List.append_nil]
    · right
      have handed := p.settled_hands t hv settled hands
      exact ⟨handed.reaches regular reaches, once.concat (settled_not_initializes frame settled)⟩

/-- On a path through any other method, the receiver is never anything but settled. -/
theorem settled_along (p : code.Prepared r c method m initial) (t : m.Typing r initial vs)
    (not : ¬initial.thisPending) (path : m.Path steps x) :
    ∃ v ∈ vs, v.site = x ∧ v.before.Settled := by
  have first : initial.Settled :=
    ⟨Bool.eq_false_iff.2 not, fun hold => not (Frame.holds_entry p.entry_eq rfl hold).2⟩
  apply p.along_path t (P := fun _ f => f.Settled) _ _ path
  · intro g regular reaches
    exact first.reaches regular reaches
  · intro v hv _ exit f g settled hands regular reaches
    exact (p.settled_hands t hv settled hands).reaches regular reaches

end Code.Prepared

/-- A constructor returns with its receiver initialized. -/
theorem Body.Checked.returnVoid {v : Visit} (h : m.Checked r v)
    (is : v.site.instruction = .returnVoid) (constructor : m.method.isConstructor) :
    v.before.thisPending = false := by
  have effect := (Body.execute_ok.1 h.executed).1
  rw [is] at effect
  obtain ⟨g, returned, _⟩ := Check.bind_ok.1 effect
  exact (Body.returnVoid_ok (Check.lift_ok.1 returned)).2 constructor

variable {resolver : Resolver}

/-- In an accepted constructor of any class but the root, every path to a return has exactly one
step that initializes the receiver, with a constructor of the class or its superclass. In any other
accepted method, no path leads to a frame that has the receiver pending or holds it as
uninitialized. -/
theorem receiver_initialized_once (body : method.code = some code)
    (accepted : (method.verify c).run (resolver.within c) = .ok ()) :
    ∃ m initial, (code.prepare c method).run (resolver.within c) = .ok (m, initial) ∧
      m.owner = c ∧ ∀ steps x, m.Path steps x →
        (method.isStatic = false ∧ method.isConstructor ∧ c.name ≠ ClassName.object →
          x.instruction = .returnVoid → m.InitializesOnce (method.framesAt resolver c) steps) ∧
        (¬(method.isStatic = false ∧ method.isConstructor ∧ c.name ≠ ClassName.object) →
          ∃ f, method.framesAt resolver c x.offset = [f] ∧ f.thisPending = false ∧
            ¬f.Holds .uninitializedThis) := by
  obtain ⟨m, initial, vs, prepared, t, frames⟩ := Method.verify_typing body accepted
  have p := Code.prepare_ok prepared
  refine ⟨m, initial, prepared, p.owner_eq, fun steps x path => ?_⟩
  rw [← Frame.thisPending_entry p.entry_eq]
  constructor
  · intro pending returns
    obtain ⟨v, hv, rfl, holds⟩ := p.pending_or_once t frames pending path
    rcases holds with ⟨still, _⟩ | ⟨_, once⟩
    · have constructor : m.method.isConstructor := by
        rw [p.method_eq]
        exact ((Frame.thisPending_entry p.entry_eq).1 pending).2.1
      rw [(t.checked v hv).returnVoid returns constructor] at still
      cases still
    · exact once
  · intro not
    obtain ⟨v, hv, rfl, settled⟩ := p.settled_along t not path
    exact ⟨v.before, frames v hv, settled⟩

/-- Does nothing but call the constructor of the superclass. -/
def defaultCode : Code where
  maxStack := 1
  maxLocals := 1
  bytes := #[0x2a, 0xb7, 0x00, 0x06, 0xb1]

def defaultConstructor : Method := ⟨0x0001, "<init>", "()V", some defaultCode⟩

def plainClass : ClassModel where
  version := 52
  access := 0x0021
  name := "Plain"
  superclass := some ClassName.object
  methods := [defaultConstructor]
  pool := .ofList [.utf8 ClassName.object, .classRef 1, .utf8 "<init>", .utf8 "()V",
    .nameAndType 3 4, .methodRef 2 5]

/-- The one path through the default constructor. -/
theorem receiver_initialized_once_default :
    (defaultConstructor.verify plainClass).run (Resolver.within (fun _ => .unknown) plainClass) =
      .ok () ∧
    ∃ m steps x, Body.Path m steps x ∧ x.instruction = .returnVoid ∧
      m.InitializesOnce (defaultConstructor.framesAt (fun _ => .unknown) plainClass) steps := by
  have accepted : (defaultConstructor.verify plainClass).run
      (Resolver.within (fun _ => .unknown) plainClass) = .ok () := by decide +kernel
  have body : defaultConstructor.code = some defaultCode := rfl
  obtain ⟨m, initial, prepared, _, along⟩ := receiver_initialized_once body accepted
  have p := Code.prepare_ok prepared
  have load : m.listing.at? 0 = some ⟨0, 0x2a, 1, .load .reference 0⟩ :=
    p.listed (by decide +kernel)
  have call : m.listing.at? 1 = some ⟨1, 0xb7, 3, .call .special 6⟩ := p.listed (by decide +kernel)
  have leave : m.listing.at? 4 = some ⟨4, 0xb1, 1, .returnVoid⟩ := p.listed (by decide +kernel)
  have path : m.Path _ _ := ((Body.Path.start load).edge (.next rfl call)).edge (.next rfl leave)
  have once := (along _ _ path).1 (by decide) rfl
  exact ⟨accepted, m, _, _, path, rfl, once⟩

end ClassVerifier
