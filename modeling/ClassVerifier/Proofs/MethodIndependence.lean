import ClassVerifier.Proofs.SessionAnswers

/-! A class is verified method by method. The methods share what is remembered, but all of that is
what the resolver says, so each method is reported as if it were verified by itself; what becomes of
the reports depends on the version of the class and on the options. -/
namespace ClassVerifier.Verifier
variable {resolver : Resolver} {c : ClassModel} {m : Method} {s : Session}

/-- What is reported of a method that is verified by itself, with nothing remembered. -/
def alone (resolver : Resolver) (c : ClassModel) (m : Method) : Option Failure :=
  (verifyMethod resolver c m {}).1

/-- The class is passed over. -/
def skips (v : Verifier) (c : ClassModel) : Bool :=
  v.options.skipBootstrap && c.name ∈ bootstrapClasses

/-- The class goes to the legacy verifier: it has no recorded frames, or it need not have any, some
method fails by itself, and the options let it fail over. -/
def delegates (v : Verifier) (resolver : Resolver) (c : ClassModel) : Bool :=
  c.version < 50 || c.version = 50 && v.options.failover = .legacy &&
    c.methods.any fun m => !m.isSkipped && (alone resolver c m).isSome

/-- The report on a method is what the resolver alone leads to, whatever is remembered of it. -/
theorem verifyMethod_fst (h : s.Faithful resolver) :
    (verifyMethod resolver c m s).1 =
      if m.isSkipped then none
      else match (m.verify c).run (resolver.within c) with
        | .ok () => none
        | .error (.rejected offset cause) => some ⟨c.name, some m.signature, offset, cause⟩
        | .error (.crashed message) =>
          some ⟨c.name, some m.signature, none, .internal message⟩ := by
  unfold verifyMethod
  split
  · rfl
  · have run : (Session.handle resolver c (m.verify c)
        (s.record (.methodStarted c.name m.signature))).1 = _ := Session.handle_fst _
    rw [(h.record _).answers_eq] at run
    rw [← run]
    split
    · next handled => rw [handled]
    · next fault _ handled =>
      rw [handled]
      cases fault <;> rfl

private theorem faithful_verifyMethod (h : s.Faithful resolver) :
    (verifyMethod resolver c m s).2.Faithful resolver := by
  unfold verifyMethod
  split
  · exact h.record _
  · have kept := (h.record (.methodStarted c.name m.signature)).handle (c := c) (m.verify c)
    split <;> next handled => rwa [handled] at kept

private theorem legacyCalls_verifyMethod :
    (verifyMethod resolver c m s).2.legacyCalls = s.legacyCalls := by
  unfold verifyMethod
  split
  · exact Session.legacyCalls_record _
  · have calls : (Session.handle resolver c (m.verify c)
        (s.record (.methodStarted c.name m.signature))).2.legacyCalls = _ :=
      Session.legacyCalls_handle _
    rw [Session.legacyCalls_record] at calls
    split <;> next handled => rwa [handled] at calls

theorem verifyMethod_alone (h : s.Faithful resolver) :
    (verifyMethod resolver c m s).1 = alone resolver c m :=
  (verifyMethod_fst h).trans (verifyMethod_fst (.of_empty rfl)).symm

private theorem alone_skipped (skipped : m.isSkipped) : alone resolver c m = none := by
  rw [alone, verifyMethod, if_pos skipped]

/-- Whatever was remembered before, each method is reported as if it came alone. -/
theorem verifyMethods_fst (methods : List Method) (h : s.Faithful resolver) :
    (verifyMethods resolver c methods s).1 = methods.filterMap (alone resolver c) := by
  induction methods generalizing s with
  | nil => rfl
  | cons m methods ih =>
    rw [verifyMethods, List.filterMap_cons]
    dsimp only
    rw [ih (faithful_verifyMethod h), verifyMethod_alone h]
    cases alone resolver c m <;> rfl

private theorem legacyCalls_verifyMethods (methods : List Method) :
    (verifyMethods resolver c methods s).2.legacyCalls = s.legacyCalls := by
  induction methods generalizing s with
  | nil => rfl
  | cons m methods ih => exact ih.trans legacyCalls_verifyMethod

/-- Methods that are passed over report nothing. -/
private theorem filterMap_alone (methods : List Method) :
    methods.filterMap (alone resolver c) =
      (methods.filter (!·.isSkipped)).filterMap (alone resolver c) := by
  induction methods with
  | nil => rfl
  | cons m methods ih =>
    cases skipped : m.isSkipped with
    | false =>
      rw [List.filter_cons_of_pos (by simp [skipped]), List.filterMap_cons, ih, List.filterMap_cons]
    | true =>
      rw [List.filter_cons_of_neg (by simp [skipped]),
        List.filterMap_cons_none (alone_skipped skipped), ih]

/-- There is a report if some method that is not passed over fails by itself. -/
private theorem any_alone (methods : List Method) :
    (methods.any fun m => !m.isSkipped && (alone resolver c m).isSome) =
      !(methods.filterMap (alone resolver c)).isEmpty := by
  rw [filterMap_alone, Bool.eq_iff_iff]
  simp [List.filterMap_eq_nil_iff, Option.isSome_iff_ne_none]

/-- A class that has recorded frames and may fail over is of one version only. -/
private theorem version_eq {version : UInt16} (recorded : ¬version < 50) :
    version < 51 ↔ version = 50 := by
  rw [UInt16.lt_iff_toNat_lt] at recorded ⊢
  rw [← UInt16.toNat_inj]
  change ¬version.toNat < 50 at recorded
  change version.toNat < 51 ↔ version.toNat = 50
  omega

theorem verifyClass_eq (v : Verifier) (resolver : Resolver) (c : ClassModel) (s : Session) :
    (v.verifyClass resolver c s).1 =
      (if v.delegates resolver c then v.legacy c else c.methods.filterMap (alone resolver c)) ∧
    (v.verifyClass resolver c s).2.legacyCalls =
      s.legacyCalls + if v.delegates resolver c then 1 else 0 := by
  have reports : (verifyMethods resolver c c.methods { s with answered := {} }).1 = _ :=
    verifyMethods_fst c.methods (.of_empty rfl)
  have calls : (verifyMethods resolver c c.methods { s with answered := {} }).2.legacyCalls =
    s.legacyCalls := legacyCalls_verifyMethods c.methods
  unfold verifyClass
  by_cases old : c.version < 50
  · have delegated : v.delegates resolver c = true := by simp [delegates, old]
    rw [if_pos (show c.version < stackMapVersion from old), delegated]
    exact ⟨rfl, congrArg (· + 1) (Session.legacyCalls_record _)⟩
  · rw [if_neg (show ¬c.version < stackMapVersion from old)]
    have failsOver : (!(c.methods.filterMap (alone resolver c)).isEmpty &&
        c.version < noFailoverVersion && v.options.failover = .legacy) =
          v.delegates resolver c := by
      rw [delegates, any_alone]
      simp only [noFailoverVersion, version_eq old, old]
      ac_rfl
    dsimp only
    rw [reports, failsOver]
    cases v.delegates resolver c with
    | true => exact ⟨rfl, congrArg (· + 1) ((Session.legacyCalls_record _).trans calls)⟩
    | false => exact ⟨rfl, calls⟩

/-- What is reported of a class, and how often the legacy verifier is called for it, whatever the
session has been through. The report on a method is what the resolver alone leads to, and a
breakdown is reported as one of the verifier itself, without an offset. -/
theorem verify_eq_methods (v : Verifier) (resolver : Resolver) (c : ClassModel) (s : Session) :
    (v.verify resolver c s).1 =
      (if v.skips c then []
      else if v.delegates resolver c then v.legacy c
      else (c.methods.filter (!·.isSkipped)).filterMap (alone resolver c)) ∧
    (v.verify resolver c s).2.legacyCalls =
      s.legacyCalls + (if !v.skips c && v.delegates resolver c then 1 else 0) ∧
    ∀ m, alone resolver c m =
      if m.isSkipped then none
      else match (m.verify c).run (resolver.within c) with
        | .ok () => none
        | .error (.rejected offset cause) => some ⟨c.name, some m.signature, offset, cause⟩
        | .error (.crashed message) =>
          some ⟨c.name, some m.signature, none, .internal message⟩ := by
  obtain ⟨reports, calls⟩ := v.verifyClass_eq resolver c (s.record (.classStarted c.name))
  rw [Session.legacyCalls_record] at calls
  rw [filterMap_alone] at reports
  rw [← and_assoc]
  refine ⟨?_, fun m => verifyMethod_fst (.of_empty rfl)⟩
  unfold verify
  cases skipped : v.skips c with
  | true =>
    rw [if_pos (show (v.options.skipBootstrap && c.name ∈ bootstrapClasses) = true from skipped)]
    exact ⟨rfl, Session.legacyCalls_record _⟩
  | false =>
    rw [if_neg (show ¬(v.options.skipBootstrap && c.name ∈ bootstrapClasses) = true from
      ne_true_of_eq_false skipped)]
    exact ⟨reports, (Session.legacyCalls_record _).trans calls⟩

/-- Returns its parameter. -/
def returning (name descriptor : String) : Method := ⟨0x0008, name, descriptor, some {
  maxStack := 1
  maxLocals := 1
  bytes := #[0x2a, 0xb0] }⟩

def caster : ClassModel where
  version := 52
  access := 0x0021
  name := "Caster"
  superclass := some ClassName.object
  methods := [returning "toLost" "(LLeaf;)LLost;", returning "toBase" "(LLeaf;)LBase;",
    returning "toLeaf" "(LBase;)LLeaf;"]

/-- Breaks down over one class. -/
def failingResolver : Resolver := fun name =>
  if name = "Lost" then .broken "no Lost"
  else if name = "Leaf" then .known (.subclassOf "Base")
  else if name = "Base" then .known (.subclassOf ClassName.object)
  else if name = ClassName.object then .known ⟨false, none⟩
  else .unknown

/-- The first method breaks down, the second one is accepted, and the third one is rejected, over
classes that the second one has made known. -/
theorem verify_eq_methods_caster :
    (({} : Verifier).verify failingResolver caster).1 =
      [⟨"Caster", some "toLost(LLeaf;)LLost;", none, .internal "no Lost"⟩,
        ⟨"Caster", some "toLeaf(LBase;)LLeaf;", some 1, .badReturnType⟩] ∧
    (({} : Verifier).verify failingResolver caster).2.legacyCalls = 0 := by
  obtain ⟨reports, calls, each⟩ := verify_eq_methods {} failingResolver caster {}
  rw [reports, calls, delegates, funext each]
  decide +kernel

end ClassVerifier.Verifier
