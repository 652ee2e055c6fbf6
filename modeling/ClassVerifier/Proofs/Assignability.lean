import ClassVerifier.Proofs.Faults
import ClassVerifier.Proofs.SlotPairs

/-! Assignability as a relation along a hierarchy, and that it is transitive. Only interfaces are in
the way, because they accept every object; the two that arrays have accept arrays too. -/
namespace ClassVerifier
open Check
variable {r : Resolver} {a b c : List Char}

namespace Resolver

/-- The superclass of a class that is known to have one. -/
def superclass? (r : Resolver) (name : String) : Option String :=
  match r name with
  | .known info => info.superclass
  | _ => none

/-- The name that far up the chain of superclasses. -/
def ancestor? (r : Resolver) : Nat → String → Option String
  | 0, name => some name
  | k + 1, name => (r.superclass? name).bind (r.ancestor? k)

/-- The root class has no superclass, interfaces have none but the root class, and all chains of
superclasses are short enough to be followed to their end. -/
structure IsHierarchy (r : Resolver) : Prop where
  root : r.superclass? ClassName.object = none
  interface : ∀ name info, r name = .known info → info.isInterface →
    info.superclass = none ∨ info.superclass = some ClassName.object
  bounded : ∀ k name target, r.ancestor? k name = some target → k < ClassName.depthLimit

/-- No interface, unless one of the two that every array has. -/
def IsExact (r : Resolver) (name : String) : Prop :=
  ∀ info, r name = .known info → info.isInterface →
    name = ClassName.cloneable ∨ name = ClassName.serializable

theorem superclass?_eq_some {name superclass : String} :
    r.superclass? name = some superclass ↔
      ∃ info, r name = .known info ∧ info.superclass = some superclass := by
  unfold superclass?
  split
  · next info known =>
    constructor
    · exact fun up => ⟨info, known, up⟩
    · rintro ⟨_, known', up⟩
      cases known.symm.trans known'
      exact up
  · next unknown =>
    constructor
    · exact nofun
    · rintro ⟨info, known, _⟩
      exact absurd known (unknown info)

theorem ancestor?_add {j k : Nat} {name middle target : String}
    (lower : r.ancestor? j name = some middle) (upper : r.ancestor? k middle = some target) :
    r.ancestor? (j + k) name = some target := by
  induction j generalizing name with
  | zero =>
    cases lower
    rwa [Nat.zero_add]
  | succ j ih =>
    obtain ⟨superclass, first, rest⟩ := Option.bind_eq_some_iff.1 lower
    rw [Nat.succ_add]
    exact Option.bind_eq_some_iff.2 ⟨superclass, first, ih rest⟩

/-- What is not there at the start of a chain is there if it is above the superclass. -/
theorem exists_ancestor?_succ {n : Nat} {name target : String} (elsewhere : name ≠ target) :
    (∃ k < n + 1, r.ancestor? k name = some target) ↔
      ∃ superclass, r.superclass? name = some superclass ∧
        ∃ k < n, r.ancestor? k superclass = some target := by
  constructor
  · rintro ⟨_ | k, lt, up⟩
    · exact absurd (Option.some.inj up) elsewhere
    · obtain ⟨superclass, first, rest⟩ := Option.bind_eq_some_iff.1 up
      exact ⟨superclass, first, k, Nat.lt_of_succ_lt_succ lt, rest⟩
  · rintro ⟨superclass, first, k, lt, rest⟩
    exact ⟨k + 1, Nat.succ_lt_succ lt, Option.bind_eq_some_iff.2 ⟨superclass, first, rest⟩⟩

/-- No chain is longer than a measure of its first name that goes down with every superclass. -/
theorem length_le_of_ancestor? {measure : String → Nat}
    (lower : ∀ name info, r name = .known info → ∀ superclass, info.superclass = some superclass →
      measure superclass < measure name)
    {k : Nat} {name target : String} (up : r.ancestor? k name = some target) :
    k ≤ measure name := by
  induction k generalizing name with
  | zero => exact Nat.zero_le _
  | succ k ih =>
    obtain ⟨superclass, first, rest⟩ := Option.bind_eq_some_iff.1 up
    obtain ⟨info, known, above⟩ := superclass?_eq_some.1 first
    exact Nat.lt_of_le_of_lt (ih rest) (lower name info known superclass above)

namespace IsHierarchy

theorem eq_object (h : r.IsHierarchy) {k : Nat} {target : String}
    (up : r.ancestor? k ClassName.object = some target) : target = ClassName.object := by
  cases k with
  | zero => exact (Option.some.inj up).symm
  | succ k =>
    obtain ⟨_, first, _⟩ := Option.bind_eq_some_iff.1 up
    rw [h.root] at first
    cases first

/-- Above an interface there is nothing but the root class. -/
theorem eq_of_interface (h : r.IsHierarchy) {k : Nat} {name target : String} {info : ClassInfo}
    (known : r name = .known info) (interface : info.isInterface)
    (up : r.ancestor? k name = some target) : target = name ∨ target = ClassName.object := by
  cases k with
  | zero => exact .inl (Option.some.inj up).symm
  | succ k =>
    obtain ⟨superclass, first, rest⟩ := Option.bind_eq_some_iff.1 up
    obtain ⟨_, known', first⟩ := superclass?_eq_some.1 first
    cases known.symm.trans known'
    rcases h.interface name info known interface with none | root
    · cases none.symm.trans first
    · cases root.symm.trans first
      exact .inr (h.eq_object rest)

end IsHierarchy
end Resolver

namespace ClassName

theorem describe_ok {name : String} {info : ClassInfo} :
    (describe name).run r = .ok info ↔ r name = .known info := by
  rw [describe, run]
  cases r name <;> simp [reject, run]

/-- The search finds what is among the next names of the chain. -/
theorem ascend_ok {start target name : String} {n : Nat} :
    (ascend start target n name).run r = .ok true ↔
      ∃ k < n, r.ancestor? k name = some target := by
  induction n generalizing name with
  | zero => simp [ascend]
  | succ n ih =>
    unfold ascend
    split
    · next here =>
      rw [pure_ok]
      exact ⟨fun _ => ⟨0, Nat.succ_pos n, congrArg some here⟩, fun _ => rfl⟩
    · next elsewhere =>
      rw [Resolver.exists_ancestor?_succ elsewhere, bind_ok]
      constructor
      · rintro ⟨info, known, rest⟩
        have known := describe_ok.1 known
        cases up : info.superclass with
        | none =>
          rw [up] at rest
          cases rest
        | some superclass =>
          rw [up] at rest
          exact ⟨superclass, Resolver.superclass?_eq_some.2 ⟨info, known, up⟩, ih.1 rest⟩
      · rintro ⟨superclass, first, rest⟩
        obtain ⟨info, known, up⟩ := Resolver.superclass?_eq_some.1 first
        refine ⟨info, describe_ok.2 known, ?_⟩
        rw [up]
        exact ih.2 rest

/-- What an array is made of in the end, as far as that is references; anything else is made of
itself. -/
def element (name : List Char) : List Char :=
  match _h : component? name with
  | some component => element component
  | none => name
termination_by name.length
decreasing_by exact component?_length ‹_›

theorem element_of_component? (h : component? a = some b) : element a = element b := by
  rw [element]
  split
  · next he => rw [Option.some.inj (he.symm.trans h)]
  · next he => cases he.symm.trans h

theorem component?_of_isObject (h : isObject a) : component? a = none := by
  unfold isObject at h
  split at h
  · cases h
  · next plain =>
    unfold component?
    split
    · exact absurd rfl (plain _)
    · exact absurd rfl (plain _)
    · rfl

theorem element_of_isObject (h : isObject a) : element a = a := by
  rw [element]
  split
  · next he => cases (component?_of_isObject h).symm.trans he
  · rfl

/-- A reference of the second name may stand where the first one is expected. -/
inductive Assignable (r : Resolver) : List Char → List Char → Prop
  | same {a : List Char} : Assignable r a a
  | root {a b : List Char} (object : isObject a) (name : String.ofList a = ClassName.object) :
      Assignable r a b
  | interface {a b : List Char} {info : ClassInfo} (object : isObject a)
      (known : r (String.ofList a) = .known info) (interface : info.isInterface)
      (accepts : isArray b = false ∨
        String.ofList a = cloneable ∨ String.ofList a = serializable) : Assignable r a b
  | subclass {a b : List Char} {info : ClassInfo} {k : Nat} (object : isObject a)
      (known : r (String.ofList a) = .known info) (concrete : info.isInterface = false)
      (source : isObject b) (near : k < depthLimit)
      (up : r.ancestor? k (String.ofList b) = some (String.ofList a)) : Assignable r a b
  | array {a b s t : List Char} (target : hasReferenceComponent a)
      (source : hasReferenceComponent b) (ht : component? a = some t) (hs : component? b = some s)
      (component : Assignable r t s) : Assignable r a b

/-- What has components is an array, and no object. -/
theorem isArray_of_componentLetter? {letter : Char} (h : componentLetter? a = some letter) :
    isArray a ∧ isObject a = false := by
  unfold componentLetter? at h
  split at h
  · exact ⟨rfl, rfl⟩
  · cases h

theorem hasReferenceComponent_of_component? (h : component? a = some b) :
    hasReferenceComponent a := by
  unfold component? unwrap? at h
  split at h
  · rfl
  · split at h
    · rfl
    · cases h
  · cases h

theorem not_isObject_of_isArray (h : isArray a) : ¬isObject a := by
  unfold isArray at h
  split at h
  · nofun
  · cases h

theorem isArray_of_hasReferenceComponent (h : hasReferenceComponent a) :
    isArray a ∧ isObject a = false := by
  rw [hasReferenceComponent, Bool.or_eq_true, decide_eq_true_eq, decide_eq_true_eq] at h
  exact h.elim isArray_of_componentLetter? isArray_of_componentLetter?

/-- An array is not assignable to another type unless that is an array too. -/
private theorem Assignable.components (h : Assignable r a b) (different : a ≠ b)
    (array : ¬isObject a) : ∃ t s, hasReferenceComponent a ∧ hasReferenceComponent b ∧
      component? a = some t ∧ component? b = some s ∧ Assignable r t s := by
  cases h with
  | same => exact absurd rfl different
  | root object | interface object | subclass object => exact absurd object array
  | array target source ht hs component => exact ⟨_, _, target, source, ht, hs, component⟩

/-- An interface accepts every object; those of arrays accept arrays too. -/
private theorem accepts_interface {name : List Char} :
    (!isArray b || decide (String.ofList name = cloneable) ||
        decide (String.ofList name = serializable)) = true ↔
      isArray b = false ∨ String.ofList name = cloneable ∨ String.ofList name = serializable := by
  rw [Bool.or_eq_true, Bool.or_eq_true, Bool.not_eq_true', decide_eq_true_eq, decide_eq_true_eq,
    or_assoc]

private theorem assignable_of_accepts (h : (accepts a b).run r = .ok true) : Assignable r a b := by
  fun_induction ClassName.accepts a b with
  | case1 a => exact .same
  | case2 a b _ object name root => exact .root object root
  | case3 a b _ object name _ =>
    obtain ⟨info, known, h⟩ := bind_ok.1 h
    have known := describe_ok.1 known
    split at h
    · next interface => exact .interface object known interface (accepts_interface.1 (pure_ok.1 h))
    · next concrete =>
      split at h
      · next source =>
        obtain ⟨k, near, up⟩ := ascend_ok.1 h
        exact .subclass object known (Bool.eq_false_iff.2 concrete) source near up
      · cases h
  | case4 a b _ _ _ letters t s ht hs ih =>
    obtain ⟨target, source⟩ := (Bool.and_eq_true _ _).mp letters
    exact .array target source ht hs (ih h)
  | case5 | case6 | case7 => cases h

private theorem Assignable.accepts (h : Assignable r a b) : (accepts a b).run r = .ok true := by
  induction h with
  | same =>
    rw [ClassName.accepts, if_pos rfl]
    rfl
  | root object root =>
    unfold ClassName.accepts
    split
    · rfl
    · dsimp only
      rw [if_pos root]
      rfl
  | interface object known interface accepts =>
    unfold ClassName.accepts
    split
    · rfl
    · dsimp only
      split
      · rfl
      · refine bind_ok.2 ⟨_, describe_ok.2 known, ?_⟩
        rw [if_pos interface, accepts_interface.2 accepts]
        rfl
  | subclass object known concrete source near up =>
    unfold ClassName.accepts
    split
    · rfl
    · dsimp only
      split
      · rfl
      · refine bind_ok.2 ⟨_, describe_ok.2 known, ?_⟩
        rw [if_neg (Bool.eq_false_iff.1 concrete)]
        exact ascend_ok.2 ⟨_, near, up⟩
  | array target source ht hs component ih =>
    have arrays := isArray_of_hasReferenceComponent target
    have letters := isArray_of_hasReferenceComponent source
    unfold ClassName.accepts
    split
    · rfl
    · rw [if_neg (Bool.eq_false_iff.1 arrays.2), if_pos (by rw [arrays.1, letters.1]; rfl),
        if_pos (by rw [target, source]; rfl)]
      split
      · next ht' hs' =>
        cases ht.symm.trans ht'
        cases hs.symm.trans hs'
        exact ih
      · next incomplete => exact absurd hs (incomplete _ _ ht)

/-- The check says yes exactly where the relation holds. -/
theorem accepts_ok : (accepts a b).run r = .ok true ↔ Assignable r a b :=
  ⟨assignable_of_accepts, Assignable.accepts⟩

/-- An array accepts arrays of the same letter, and one of references those of references. -/
theorem Assignable.letter (h : Assignable r a b) {letter : Char}
    (array : componentLetter? a = some letter) : componentLetter? b = some letter ∨
      hasReferenceComponent a ∧ hasReferenceComponent b := by
  by_cases same : a = b
  · exact .inl (same ▸ array)
  · have array := (isArray_of_componentLetter? array).2
    obtain ⟨_, _, target, source, _⟩ := h.components same (Bool.eq_false_iff.1 array)
    exact .inr ⟨target, source⟩

theorem Assignable.references (h : Assignable r a b) (array : hasReferenceComponent a) :
    hasReferenceComponent b := by
  by_cases same : a = b
  · exact same ▸ array
  · have array := (isArray_of_hasReferenceComponent array).2
    obtain ⟨_, _, _, source, _⟩ := h.components same (Bool.eq_false_iff.1 array)
    exact source

theorem Assignable.isArray (h : Assignable r a b) (array : isArray a) : isArray b := by
  by_cases same : a = b
  · exact same ▸ array
  · obtain ⟨_, _, _, source, _⟩ := h.components same (not_isObject_of_isArray array)
    exact (isArray_of_hasReferenceComponent source).1

theorem Assignable.component {t : List Char} (h : Assignable r a b)
    (array : hasReferenceComponent a) (ht : component? a = some t) :
    ∃ s, component? b = some s ∧ Assignable r t s := by
  by_cases same : a = b
  · exact ⟨t, same ▸ ht, .same⟩
  · have array := (isArray_of_hasReferenceComponent array).2
    obtain ⟨_, s, _, _, ht', hs, lower⟩ := h.components same (Bool.eq_false_iff.1 array)
    cases ht.symm.trans ht'
    exact ⟨s, hs, lower⟩

/-- Assignability is transitive, unless the first type is made of interfaces. -/
theorem Assignable.trans (hr : r.IsHierarchy) (hab : Assignable r a b) (hbc : Assignable r b c)
    (exact : isObject (element a) → r.IsExact (String.ofList (element a))) :
    Assignable r a c := by
  induction hab generalizing c with
  | same => exact hbc
  | root object name => exact .root object name
  | interface object known interface accepts =>
    have itself : element _ = _ := element_of_isObject object
    rw [itself] at exact
    exact .interface object known interface (.inr (exact object _ known interface))
  | subclass object known concrete source near up =>
    cases hbc with
    | same => exact .subclass object known concrete source near up
    | root _ root =>
      rw [root] at up
      exact .root object (hr.eq_object up)
    | interface _ known' interface _ =>
      rcases hr.eq_of_interface known' interface up with he | root
      · rw [← he, known] at known'
        cases known'
        rw [concrete] at interface
        cases interface
      · exact .root object root
    | subclass _ _ _ source' near' up' =>
      have up := Resolver.ancestor?_add up' up
      exact .subclass object known concrete source' (hr.bounded _ _ _ up) up
    | array target =>
      rw [(isArray_of_hasReferenceComponent target).2] at source
      cases source
  | array target source ht hs component ih =>
    rw [element_of_component? ht] at exact
    have array := (isArray_of_hasReferenceComponent source).2
    cases hbc with
    | same => exact .array target source ht hs component
    | root object | interface object | subclass object =>
      rw [array] at object
      cases object
    | array _ source' hs' hu component' =>
      cases hs.symm.trans hs'
      exact .array target source' ht hu (ih component' exact)

end ClassName

namespace SlotType
open ClassName (Assignable element)
variable {expected t s : SlotType}

/-- The elements of an array of references are named by its component. -/
theorem component?_eq {name : String} (references : ClassName.hasReferenceComponent name.toList) :
    (reference name).component? =
      (ClassName.component? name.toList).map fun cs => reference (String.ofList cs) := by
  have letter : ClassName.componentLetter? name.toList = some 'L' ∨
      ClassName.componentLetter? name.toList = some '[' := by
    simpa [ClassName.hasReferenceComponent] using references
  rcases letter with class_ | array <;> simp [component?, *]

/-- Where a slot can be of the type, another one is accepted only among references. -/
theorem accepts_ok (actual : t.isActual) : (t.accepts s).run r = .ok true ↔
    s = t ∨ ∃ name, t = .reference name ∧
      (s = .null ∨ ∃ other, s = .reference other ∧ Assignable r name.toList other.toList) := by
  unfold accepts
  split
  · next h =>
    rw [Bool.or_eq_true, decide_eq_true_eq, decide_eq_true_eq] at h
    refine iff_of_true rfl (.inl ?_)
    rcases h with rfl | rfl
    · rfl
    · cases actual
  · next h =>
    rw [Bool.or_eq_true, decide_eq_true_eq, decide_eq_true_eq, not_or] at h
    rw [or_iff_right fun he => h.1 he.symm]
    split
    · cases actual
    · cases actual
    · cases actual
    · next name => exact iff_of_true rfl ⟨name, rfl, .inl rfl⟩
    · next name other =>
      rw [ClassName.accepts_ok]
      constructor
      · exact fun h => ⟨name, rfl, .inr ⟨other, rfl, h⟩⟩
      · rintro ⟨_, he, ho | ⟨_, ho, h⟩⟩
        · cases ho
        · cases he
          cases ho
          exact h
    · next none some =>
      refine iff_of_false nofun ?_
      rintro ⟨name, rfl, rfl | ⟨other, rfl, _⟩⟩
      · exact none name rfl rfl
      · exact some name other rfl rfl

/-- What is accepted in place of a slot looks the same to an instruction that asks for a size. -/
theorem size_of_accepts (actual : t.isActual) (h : (t.accepts s).run r = .ok true) :
    s.isSingle = t.isSingle ∧ s.isFirst = t.isFirst ∧ s.isSecond = t.isSecond := by
  rcases (accepts_ok actual).1 h with rfl | ⟨_, rfl, rfl | ⟨_, rfl, _⟩⟩ <;> exact ⟨rfl, rfl, rfl⟩

theorem reference_of_accepts (actual : t.isActual) (h : (t.accepts s).run r = .ok true) :
    (s.isReference || s.isUninitialized) = (t.isReference || t.isUninitialized) := by
  rcases (accepts_ok actual).1 h with rfl | ⟨_, rfl, rfl | ⟨_, rfl, _⟩⟩ <;> rfl

/-- A slot may stand for another one that may stand where something is expected. -/
theorem accepts_trans (hr : r.IsHierarchy)
    (exact : ∀ name, expected = .reference name → ClassName.isObject (element name.toList) →
      r.IsExact (String.ofList (element name.toList)))
    (h : (expected.accepts t).run r = .ok true) (ht : (t.accepts s).run r = .ok true) :
    (expected.accepts s).run r = .ok true := by
  have whole := h
  unfold accepts at h
  split at h
  · next he =>
    rw [Bool.or_eq_true, decide_eq_true_eq, decide_eq_true_eq] at he
    rcases he with rfl | rfl
    · exact ht
    · simp [accepts]
  · split at h
    · have single := pure_ok.1 h
      simp [accepts, (size_of_accepts (isActual_of_isSingle single) ht).1, single]
    · have first := pure_ok.1 h
      simp [accepts, (size_of_accepts (isActual_of_isFirst first) ht).2.1, first]
    · have reference := pure_ok.1 h
      have actual := isActual_of_isSingle (isSingle_of_reference reference)
      simp [accepts, reference_of_accepts actual ht, reference]
    · next name _ =>
      obtain rfl : s = .null := by simpa using (accepts_ok rfl).1 ht
      exact whole
    · next name other _ =>
      rw [accepts_ok rfl]
      rcases (accepts_ok rfl).1 ht with rfl | ⟨_, he, rfl | ⟨last, rfl, lower⟩⟩
      · exact (accepts_ok rfl).1 whole
      · exact .inr ⟨name, rfl, .inl rfl⟩
      · cases he
        have upper := ClassName.accepts_ok.1 h
        exact .inr ⟨name, rfl, .inr ⟨last, rfl, upper.trans hr lower (exact name rfl)⟩⟩
    · cases h

end SlotType
end ClassVerifier
