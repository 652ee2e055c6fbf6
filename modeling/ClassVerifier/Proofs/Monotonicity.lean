import ClassVerifier.Proofs.MonotoneSteps
import ClassVerifier.Proofs.Positions

/-! Execution is monotone. What goes well with a frame goes well with every frame that may flow into
it, and what comes out may flow into what came out before. -/
namespace ClassVerifier
variable {r resolver : Resolver} {c : ClassModel} {method : Method} {code : Code} {m : Body}
  {initial f g g' : Frame} {flow : Flow}

theorem Code.Prepared.usable (p : code.Prepared r c method m initial) : m.Usable :=
  fun h recorded => (p.represents_recorded h recorded).wellFormed.actual

theorem Code.Prepared.actual_thisType (p : code.Prepared r c method m initial) :
    ∃ name, m.thisType = .reference name := ⟨c.name, p.thisType_eq⟩

/-- In a hierarchy of classes, let two frames of a method be at the same offset and the first one
flow into the second, whose operands can all be used. If an instruction can be executed on the
second frame, so it can on the first, control leaves in the same way, and the frame behind it flows
into the other. -/
theorem execute_monotone (hierarchy : (resolver.within c).IsClassHierarchy)
    (prepared : (code.prepare c method).run (resolver.within c) = .ok (m, initial))
    (source : f.WellFormed ∧ f.maxLocals = code.maxLocals.toNat ∧ f.maxStack = code.maxStack.toNat)
    (target : g.WellFormed ∧ g.maxLocals = code.maxLocals.toNat ∧ g.maxStack = code.maxStack.toNat)
    (offset : f.offset = g.offset) (flows : f.Flows (resolver.within c) g)
    (usable : .top ∉ g.stack.slots) (i : Instruction)
    (executed : (m.execute i g).run (resolver.within c) = .ok (flow, g')) :
    ∃ f', (m.execute i f).run (resolver.within c) = .ok (flow, f') ∧
      f'.Flows (resolver.within c) g' := by
  have p := Code.prepare_ok prepared
  obtain ⟨formed, _, maxStack⟩ := source
  obtain ⟨formed', _, maxStack'⟩ := target
  have below : f.Below (resolver.within c) g :=
    .of_flows formed formed' offset (maxStack.trans maxStack'.symm) usable flows
  obtain ⟨⟨_, f'⟩, executed', rfl, after⟩ :=
    Body.follows_execute hierarchy p.usable p.actual_thisType below formed.locals_paired
      formed'.locals_paired i _ executed
  exact ⟨f', executed', after.flows⟩

/-- Looks whether its parameter is there, and does nothing with it. -/
def lookingCode : Code where
  maxStack := 1
  maxLocals := 1
  bytes := #[0x2a, 0xc6, 0x00, 0x03, 0xb1]
  stackMap := some [0, 1, 4]

def looking : Method := ⟨0x0008, "looking", "(LBase;)V", some lookingCode⟩

def derived : ClassModel where
  version := 52
  access := 0x0021
  name := "Derived"
  superclass := some "Base"
  methods := [looking]

/-- Knows the superclass of `derived`, and nothing about the root class. -/
def baseOnly : Resolver := fun name =>
  if name = "Base" then .known (.subclassOf ClassName.object) else .unknown

/-- How many superclasses can be found from a name on. -/
private def height (name : String) : Nat :=
  if name = "Derived" then 2 else if name = "Base" then 1 else 0

private theorem height_le (name : String) : height name ≤ 2 := by
  unfold height
  split
  · exact Nat.le_refl 2
  · split <;> decide

private theorem derived_known {name : String} {info : ClassInfo}
    (known : baseOnly.within derived name = .known info) : info.isInterface = false ∧
      ∀ superclass, info.superclass = some superclass → height superclass < height name := by
  unfold Resolver.within baseOnly at known
  split at known
  · next own =>
    cases known
    subst own
    refine ⟨rfl, fun _ up => ?_⟩
    cases up
    decide
  · split at known
    · next base =>
      cases known
      subst base
      refine ⟨rfl, fun _ up => ?_⟩
      cases up
      decide
    · cases known

private theorem derived_isClassHierarchy : (baseOnly.within derived).IsClassHierarchy := by
  have proper : ∀ name info, baseOnly.within derived name = .known info → ¬info.isInterface :=
    fun _ _ found interface => nomatch (derived_known found).1 ▸ interface
  refine ⟨⟨by decide +kernel, fun name info found interface => ?_, fun k name target up => ?_⟩,
    fun name info found interface => ?_⟩
  · exact absurd interface (proper name info found)
  · have steps := Resolver.length_le_of_ancestor? (fun _ _ found => (derived_known found).2) up
    have short := Nat.le_trans steps (height_le name)
    exact Nat.lt_of_le_of_lt short (by decide)
  · exact absurd interface (proper name info found)

/-- In front of the test, the class of the parameter being given. -/
def testing (name : String) : Frame where
  offset := 1
  used := 1
  maxLocals := 1
  maxStack := 1
  thisPending := false
  locals := #[.reference name]
  stack := .ofSlots [.reference name]

private theorem testing_wellFormed (name : String) : (testing name).WellFormed where
  regular :=
    { size_eq := rfl
      used_le := Nat.le_refl 1
      unused := fun k t hk ht => by
        rw [testing, Array.getElem?_eq_none hk] at ht
        cases ht }
  fits := Nat.le_refl 1
  locals_paired := .singleton ⟨rfl, rfl⟩
  operands_paired := .singleton ⟨rfl, rfl⟩
  actual := by
    intro t ht
    have same : t = .reference name := by
      rcases ht with ht | ht
      · exact Array.mem_singleton.1 ht
      · exact List.mem_singleton.1 ht
    rw [same]
    rfl

/-- The test passes with the superclass in the parameter, and the recorded frame takes that. -/
private theorem testing_base : ∃ m initial,
    (lookingCode.prepare derived looking).run (baseOnly.within derived) = .ok (m, initial) ∧
      (m.execute (.branch .reference 4) (testing "Base")).run (baseOnly.within derived) =
        .ok (.next, { testing "Base" with stack := .empty }) := by
  have both : (lookingCode.prepare derived looking >>= fun prepared =>
      prepared.1.execute (.branch .reference 4) (testing "Base")).run (baseOnly.within derived) =
        .ok (.next, { testing "Base" with stack := .empty }) := by
    decide +kernel
  obtain ⟨⟨m, initial⟩, prepared, executed⟩ := Check.bind_ok.1 both
  exact ⟨m, initial, prepared, executed⟩

/-- So it does with the class itself in the parameter. -/
theorem execute_monotone_derived :
    (baseOnly.within derived).IsClassHierarchy ∧ ∃ m initial f',
      (lookingCode.prepare derived looking).run (baseOnly.within derived) = .ok (m, initial) ∧
      (testing "Derived").Flows (baseOnly.within derived) (testing "Base") ∧
      (m.execute (.branch .reference 4) (testing "Derived")).run (baseOnly.within derived) =
        .ok (.next, f') ∧
      f'.Flows (baseOnly.within derived) { testing "Base" with stack := .empty } := by
  obtain ⟨m, initial, prepared, executed⟩ := testing_base
  have flows : (testing "Derived").Flows (baseOnly.within derived) (testing "Base") := by
    unfold Frame.Flows
    decide +kernel
  obtain ⟨f', executed', after⟩ := execute_monotone derived_isClassHierarchy prepared
    ⟨testing_wellFormed "Derived", rfl, rfl⟩ ⟨testing_wellFormed "Base", rfl, rfl⟩ rfl flows
    (by decide) (.branch .reference 4) executed
  exact ⟨derived_isClassHierarchy, m, initial, f', prepared, flows, executed', after⟩

end ClassVerifier
