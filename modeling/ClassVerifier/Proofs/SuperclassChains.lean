import ClassVerifier.Proofs.Assignability
import ClassVerifier.Proofs.SessionAnswers

/-! How the search for a superclass ends. It stops at the first name of the chain that is the
target, that has no superclass or that is not known, and gives up where none of the first 1024
names is one of these. -/
namespace ClassVerifier
open Check
variable {r : Resolver} {start target name last : String} {e : Except Fault Bool} {k n : Nat}

namespace Resolver

/-- A name that the chain of superclasses comes to among its first 1024 ones, with everything below
it known. -/
structure Climbs (r : Resolver) (name : String) (k : Nat) (last : String) : Prop where
  near : k < 1024
  up : r.ancestor? k name = some last
  known : ∀ j < k, ∃ lower info, r.ancestor? j name = some lower ∧ r lower = .known info

/-- The target is not among the names of the chain up to this one. -/
def Misses (r : Resolver) (name target : String) (k : Nat) : Prop :=
  ∀ j ≤ k, r.ancestor? j name ≠ some target

/-- The chain comes to the target. -/
def Reaches (r : Resolver) (name target : String) : Prop := ∃ k, r.Climbs name k target

/-- The chain ends before the target, at a name without a superclass. -/
def TopsOut (r : Resolver) (name target : String) : Prop :=
  ∃ k last info, r.Climbs name k last ∧ r last = .known info ∧ info.superclass = none ∧
    r.Misses name target k

/-- The chain is lost before the target, at a name that is not known. -/
def LosesTrackAt (r : Resolver) (name target last : String) : Prop :=
  ∃ k, r.Climbs name k last ∧ r last = .unknown ∧ r.Misses name target k

/-- The resolver breaks down before the target is found. -/
def BreaksDown (r : Resolver) (name target message : String) : Prop :=
  ∃ k last, r.Climbs name k last ∧ r last = .broken message ∧ r.Misses name target k

/-- What a search comes to at a name from which it does not go on. -/
inductive Settles (r : Resolver) (target : String) : String → Except Fault Bool → Prop
  | found : Settles r target target (.ok true)
  | root {name : String} {info : ClassInfo} (elsewhere : name ≠ target)
      (known : r name = .known info) (none : info.superclass = none) :
      Settles r target name (.ok false)
  | unknown {name : String} (elsewhere : name ≠ target) (unknown : r name = .unknown) :
      Settles r target name (.error (.rejected none (.unresolvedClass name)))
  | broken {name message : String} (elsewhere : name ≠ target)
      (broken : r name = .broken message) : Settles r target name (.error (.crashed message))

theorem Settles.result (h : r.Settles target name e) :
    e = .ok true ∨ e = .ok false ∨ (∃ x, e = .error (.rejected none (.unresolvedClass x))) ∨
      ∃ message, e = .error (.crashed message) := by
  cases h with
  | found => exact .inl rfl
  | root => exact .inr (.inl rfl)
  | unknown => exact .inr (.inr (.inl ⟨name, rfl⟩))
  | broken => exact .inr (.inr (.inr ⟨_, rfl⟩))

/-- One of the next names settles the search, and the target does not come before it. -/
def SettlesWithin (r : Resolver) (target : String) (n : Nat) (name : String)
    (e : Except Fault Bool) : Prop :=
  ∃ k < n, ∃ last, r.ancestor? k name = some last ∧
    (∀ j < k, r.ancestor? j name ≠ some target) ∧ r.Settles target last e

/-- The chain goes on behind the next names, and the target is none of them. -/
def Outlasts (r : Resolver) (target : String) (n : Nat) (name : String) : Prop :=
  (∃ last, r.ancestor? n name = some last) ∧ ∀ k < n, r.ancestor? k name ≠ some target

theorem ancestor?_succ : r.ancestor? (k + 1) name = some last ↔
    ∃ superclass, r.superclass? name = some superclass ∧
      r.ancestor? k superclass = some last :=
  Option.bind_eq_some_iff

/-- A chain that goes on is known below. -/
theorem known_of_ancestor? (up : r.ancestor? n name = some last) (lt : k < n) :
    ∃ lower info, r.ancestor? k name = some lower ∧ r lower = .known info := by
  induction n generalizing name k with
  | zero => exact absurd lt (Nat.not_lt_zero k)
  | succ n ih =>
    obtain ⟨superclass, first, rest⟩ := ancestor?_succ.1 up
    cases k with
    | zero =>
      obtain ⟨info, known, _⟩ := superclass?_eq_some.1 first
      exact ⟨name, info, rfl, known⟩
    | succ k =>
      obtain ⟨lower, info, lowerUp, known⟩ := ih rest (Nat.lt_of_succ_lt_succ lt)
      exact ⟨lower, info, ancestor?_succ.2 ⟨superclass, first, lowerUp⟩, known⟩

/-- The target is not among the first names of a chain just in case it is neither the first one nor
above it. -/
private theorem forall_ancestor?_ne_succ {superclass : String}
    (first : r.superclass? name = some superclass) :
    (∀ j < n + 1, r.ancestor? j name ≠ some target) ↔
      name ≠ target ∧ ∀ j < n, r.ancestor? j superclass ≠ some target := by
  have above (j : Nat) : r.ancestor? (j + 1) name = r.ancestor? j superclass := by
    rw [ancestor?, first, Option.bind_some]
  constructor
  · intro h
    refine ⟨fun here => h 0 (Nat.succ_pos n) (congrArg some here), fun j lt => ?_⟩
    rw [← above]
    exact h (j + 1) (Nat.succ_lt_succ lt)
  · rintro ⟨elsewhere, h⟩ (_ | j) lt
    · exact fun here => elsewhere (Option.some.inj here)
    · rw [above]
      exact h j (Nat.lt_of_succ_lt_succ lt)

theorem settlesWithin_succ : r.SettlesWithin target (n + 1) name e ↔
    r.Settles target name e ∨ name ≠ target ∧
      ∃ superclass, r.superclass? name = some superclass ∧
        r.SettlesWithin target n superclass e := by
  constructor
  · rintro ⟨_ | k, lt, last, up, missed, settled⟩
    · cases up
      exact .inl settled
    · obtain ⟨superclass, first, rest⟩ := ancestor?_succ.1 up
      obtain ⟨elsewhere, missed⟩ := (forall_ancestor?_ne_succ first).1 missed
      exact .inr ⟨elsewhere, superclass, first, k, Nat.lt_of_succ_lt_succ lt, last, rest, missed,
        settled⟩
  · rintro (settled | ⟨elsewhere, superclass, first, k, lt, last, rest, missed, settled⟩)
    · exact ⟨0, Nat.succ_pos n, name, rfl, nofun, settled⟩
    · exact ⟨k + 1, Nat.succ_lt_succ lt, last, ancestor?_succ.2 ⟨superclass, first, rest⟩,
        (forall_ancestor?_ne_succ first).2 ⟨elsewhere, missed⟩, settled⟩

theorem outlasts_succ : r.Outlasts target (n + 1) name ↔
    name ≠ target ∧ ∃ superclass, r.superclass? name = some superclass ∧
      r.Outlasts target n superclass := by
  constructor
  · rintro ⟨⟨last, up⟩, missed⟩
    obtain ⟨superclass, first, rest⟩ := ancestor?_succ.1 up
    obtain ⟨elsewhere, missed⟩ := (forall_ancestor?_ne_succ first).1 missed
    exact ⟨elsewhere, superclass, first, ⟨last, rest⟩, missed⟩
  · rintro ⟨elsewhere, superclass, first, ⟨last, rest⟩, missed⟩
    exact ⟨⟨last, ancestor?_succ.2 ⟨superclass, first, rest⟩⟩,
      (forall_ancestor?_ne_succ first).2 ⟨elsewhere, missed⟩⟩

/-- A name settles the search, or has a superclass. -/
theorem settles_or_superclass (r : Resolver) (target name : String) :
    (∃ e, r.Settles target name e) ∨
      name ≠ target ∧ ∃ superclass, r.superclass? name = some superclass := by
  by_cases here : name = target
  · subst here
    exact .inl ⟨_, .found⟩
  · cases said : r name with
    | known info =>
      cases up : info.superclass with
      | none => exact .inl ⟨_, .root here said up⟩
      | some superclass => exact .inr ⟨here, superclass, superclass?_eq_some.2 ⟨info, said, up⟩⟩
    | unknown => exact .inl ⟨_, .unknown here said⟩
    | broken message => exact .inl ⟨_, .broken here said⟩

end Resolver

namespace ClassName
open Resolver

private theorem ascend_of_settles (h : r.Settles target name e) :
    (ascend start target (n + 1) name).run r = e := by
  unfold ascend
  cases h with
  | found => rw [if_pos rfl]; rfl
  | root elsewhere known none =>
    rw [if_neg elsewhere, run_bind_of_ok (describe_ok.2 known), none]
    rfl
  | unknown elsewhere unknown =>
    have asked : (describe name).run r = .error (.rejected none (.unresolvedClass name)) := by
      rw [describe, run, unknown]
      rfl
    rw [if_neg elsewhere]
    exact bind_error.2 (.inl asked)
  | broken elsewhere broken =>
    rw [if_neg elsewhere]
    refine bind_error.2 (.inl ?_)
    rw [describe, run, broken]

private theorem ascend_of_superclass {superclass : String} (elsewhere : name ≠ target)
    (first : r.superclass? name = some superclass) :
    (ascend start target (n + 1) name).run r = (ascend start target n superclass).run r := by
  obtain ⟨info, known, up⟩ := superclass?_eq_some.1 first
  rw [ascend, if_neg elsewhere, run_bind_of_ok (describe_ok.2 known), up]

/-- The search ends at the first name that settles it, or by the limit. -/
theorem ascend_run : (ascend start target n name).run r = e ↔
    r.SettlesWithin target n name e ∨
      r.Outlasts target n name ∧
        e = .error (.rejected none (.hierarchyDepthLimitReached start)) := by
  induction n generalizing name with
  | zero =>
    constructor
    · rintro rfl
      exact .inr ⟨⟨⟨name, rfl⟩, nofun⟩, rfl⟩
    · rintro (⟨_, lt, _⟩ | ⟨_, rfl⟩)
      · exact absurd lt (Nat.not_lt_zero _)
      · rfl
  | succ n ih =>
    rw [settlesWithin_succ, outlasts_succ]
    constructor
    · intro h
      rcases r.settles_or_superclass target name with ⟨_, settled⟩ | ⟨elsewhere, superclass, first⟩
      · rw [ascend_of_settles settled] at h
        exact .inl (.inl (h ▸ settled))
      · rw [ascend_of_superclass elsewhere first] at h
        rcases ih.1 h with within | ⟨outlasts, limit⟩
        · exact .inl (.inr ⟨elsewhere, superclass, first, within⟩)
        · exact .inr ⟨⟨elsewhere, superclass, first, outlasts⟩, limit⟩
    · rintro ((settled | ⟨elsewhere, superclass, first, within⟩) |
        ⟨⟨elsewhere, superclass, first, outlasts⟩, rfl⟩)
      · exact ascend_of_settles settled
      · rw [ascend_of_superclass elsewhere first]
        exact ih.2 (.inl within)
      · rw [ascend_of_superclass elsewhere first]
        exact ih.2 (.inr ⟨outlasts, rfl⟩)

private theorem isSubclassOf_run : (isSubclassOf name target).run r = e ↔
    r.SettlesWithin target 1024 name e ∨
      r.Outlasts target 1024 name ∧
        e = .error (.rejected none (.hierarchyDepthLimitReached name)) :=
  ascend_run

/-- Where the search neither finds the target nor gives up, the target is not among the names up to
the one that settles it. -/
private theorem run_eq_of_settles (missed : e ≠ .ok true)
    (early : e ≠ .error (.rejected none (.hierarchyDepthLimitReached name))) :
    (isSubclassOf name target).run r = e ↔
      ∃ k last, r.Climbs name k last ∧ r.Settles target last e ∧ r.Misses name target k := by
  rw [isSubclassOf_run, or_iff_left fun h => early h.2]
  constructor
  · rintro ⟨k, near, last, up, before, settled⟩
    refine ⟨k, last, ⟨near, up, fun j lt => known_of_ancestor? up lt⟩, settled, fun j le => ?_⟩
    rcases Nat.lt_or_eq_of_le le with lt | rfl
    · exact before j lt
    · intro here
      cases up.symm.trans here
      cases settled with
      | found => exact missed rfl
      | root elsewhere | unknown elsewhere | broken elsewhere => exact elsewhere rfl
  · rintro ⟨k, last, climbs, settled, before⟩
    exact ⟨k, climbs.near, last, climbs.up, fun j lt => before j (Nat.le_of_lt lt), settled⟩

private theorem ne_of_misses (climbs : r.Climbs name k last) (missed : r.Misses name target k) :
    last ≠ target := by
  rintro rfl
  exact missed k (Nat.le_refl k) climbs.up

private theorem run_eq_true :
    (isSubclassOf name target).run r = .ok true ↔ r.Reaches name target := by
  rw [isSubclassOf, ascend_ok]
  constructor
  · rintro ⟨k, near, up⟩
    exact ⟨k, near, up, fun j lt => known_of_ancestor? up lt⟩
  · rintro ⟨k, climbs⟩
    exact ⟨k, climbs.near, climbs.up⟩

private theorem run_eq_false :
    (isSubclassOf name target).run r = .ok false ↔ r.TopsOut name target := by
  refine (run_eq_of_settles (by nofun) (by nofun)).trans ⟨?_, ?_⟩
  · rintro ⟨k, last, climbs, settled, missed⟩
    cases settled with
    | root _ known none => exact ⟨k, last, _, climbs, known, none, missed⟩
  · rintro ⟨k, last, info, climbs, known, none, missed⟩
    exact ⟨k, last, climbs, .root (ne_of_misses climbs missed) known none, missed⟩

private theorem run_eq_unresolved :
    (isSubclassOf name target).run r = .error (.rejected none (.unresolvedClass last)) ↔
      r.LosesTrackAt name target last := by
  refine (run_eq_of_settles (by nofun) (by nofun)).trans ⟨?_, ?_⟩
  · rintro ⟨k, _, climbs, settled, missed⟩
    cases settled with
    | unknown _ unknown => exact ⟨k, climbs, unknown, missed⟩
  · rintro ⟨k, climbs, unknown, missed⟩
    exact ⟨k, last, climbs, .unknown (ne_of_misses climbs missed) unknown, missed⟩

private theorem run_eq_crashed {message : String} :
    (isSubclassOf name target).run r = .error (.crashed message) ↔
      r.BreaksDown name target message := by
  refine (run_eq_of_settles (by nofun) (by nofun)).trans ⟨?_, ?_⟩
  · rintro ⟨k, last, climbs, settled, missed⟩
    cases settled with
    | broken _ broken => exact ⟨k, last, climbs, broken, missed⟩
  · rintro ⟨k, last, climbs, broken, missed⟩
    exact ⟨k, last, climbs, .broken (ne_of_misses climbs missed) broken, missed⟩

/-- The search gives up just in case it ends in none of the other ways. -/
private theorem run_eq_limit :
    (isSubclassOf name target).run r = .error (.rejected none (.hierarchyDepthLimitReached name)) ↔
      ¬r.Reaches name target ∧ ¬r.TopsOut name target ∧
        (∀ last, ¬r.LosesTrackAt name target last) ∧
        ∀ message, ¬r.BreaksDown name target message := by
  simp only [← run_eq_true, ← run_eq_false, ← run_eq_unresolved, ← run_eq_crashed]
  constructor
  · intro limit
    rw [limit]
    exact ⟨nofun, nofun, nofun, nofun⟩
  · rintro ⟨unreached, goesOn, known, sound⟩
    rcases isSubclassOf_run.1 (Eq.refl ((isSubclassOf name target).run r)) with within | limit
    · obtain ⟨_, _, last, _, _, settled⟩ := within
      rcases settled.result with yes | no | ⟨x, lost⟩ | ⟨message, broken⟩
      · exact absurd yes unreached
      · exact absurd no goesOn
      · exact absurd lost (known x)
      · exact absurd broken (sound message)
    · exact limit.2

/-- The search finds the target just in case it is among the first 1024 names of the chain. It
finds that there is no such superclass just in case one of these names has none and the target is
not among the names up to it, and reports a class as unresolved just in case this is the first of
these names that is not known and the target is not among the names up to it. Otherwise it reports
the chain of the class it started from as too long. What the session remembers counts as known. -/
theorem isSubclassOf_exact (resolver : Resolver) (c : ClassModel) (s : Session)
    (name target : String) :
    let r := (s.answers resolver).within c
    let result := (Session.handle resolver c (isSubclassOf name target) s).1
    (result = .ok true ↔ r.Reaches name target) ∧
    (result = .ok false ↔ r.TopsOut name target) ∧
    (∀ last, result = .error (.rejected none (.unresolvedClass last)) ↔
      r.LosesTrackAt name target last) ∧
    (∀ message, result = .error (.crashed message) ↔ r.BreaksDown name target message) ∧
    (result = .error (.rejected none (.hierarchyDepthLimitReached name)) ↔
      ¬r.Reaches name target ∧ ¬r.TopsOut name target ∧
        (∀ last, ¬r.LosesTrackAt name target last) ∧
        ∀ message, ¬r.BreaksDown name target message) := by
  intro r result
  have same : result = (isSubclassOf name target).run r := Session.handle_fst _
  rw [same]
  exact ⟨run_eq_true, run_eq_false, fun _ => run_eq_unresolved, fun _ => run_eq_crashed,
    run_eq_limit⟩

/-- A class below a class that is below it. -/
def circular : ClassModel where
  version := 52
  access := 0x0021
  name := "pkg/A"
  superclass := some "pkg/B"

/-- Knows the other class of the circle. -/
def closing : Resolver := fun name =>
  if name = "pkg/B" then .known (.subclassOf "pkg/A") else .unknown

private theorem circular_known (up : (closing.within circular).ancestor? k name = some last)
    (first : name = "pkg/A" ∨ name = "pkg/B") :
    ∃ info, (closing.within circular) last = .known info ∧ info.superclass ≠ none ∧
      last ≠ "pkg/C" := by
  induction k generalizing name with
  | zero =>
    cases up
    rcases first with rfl | rfl
    · exact ⟨_, rfl, nofun, by decide⟩
    · exact ⟨_, rfl, nofun, by decide⟩
  | succ k ih =>
    obtain ⟨superclass, above, rest⟩ := ancestor?_succ.1 up
    rcases first with rfl | rfl
    · cases above
      exact ih rest (.inr rfl)
    · cases above
      exact ih rest (.inl rfl)

/-- Round a circle the search finds the class that is on it, and gives up on another one. -/
theorem isSubclassOf_exact_circular :
    (Session.handle closing circular (isSubclassOf "pkg/A" "pkg/B") {}).1 = .ok true ∧
    (Session.handle closing circular (isSubclassOf "pkg/A" "pkg/C") {}).1 =
      .error (.rejected none (.hierarchyDepthLimitReached "pkg/A")) := by
  obtain ⟨found, _⟩ := isSubclassOf_exact closing circular {} "pkg/A" "pkg/B"
  obtain ⟨_, _, _, _, limit⟩ := isSubclassOf_exact closing circular {} "pkg/A" "pkg/C"
  have answers : Session.answers {} closing = closing :=
    (Session.Faithful.of_empty rfl).answers_eq
  rw [answers] at found limit
  have up : (closing.within circular).ancestor? 1 "pkg/A" = some "pkg/B" := rfl
  refine ⟨found.2 ⟨1, by decide, up, fun j lt => known_of_ancestor? up lt⟩,
    limit.2 ⟨?_, ?_, ?_, ?_⟩⟩
  · rintro ⟨k, climbs⟩
    obtain ⟨_, _, _, elsewhere⟩ := circular_known climbs.up (.inl rfl)
    exact elsewhere rfl
  · rintro ⟨k, last, info, climbs, known, none, _⟩
    obtain ⟨_, known', some, _⟩ := circular_known climbs.up (.inl rfl)
    cases known.symm.trans known'
    exact some none
  · rintro last ⟨k, climbs, unknown, _⟩
    obtain ⟨_, known, _⟩ := circular_known climbs.up (.inl rfl)
    cases unknown.symm.trans known
  · rintro message ⟨k, last, climbs, broken, _⟩
    obtain ⟨_, known, _⟩ := circular_known climbs.up (.inl rfl)
    cases broken.symm.trans known

end ClassName
end ClassVerifier
