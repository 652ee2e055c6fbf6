import ClassVerifier.Proofs.MethodIndependence
import ClassVerifier.Proofs.PlainChecks
import Mathlib.Control.Monad.Basic

/-! What has been settled stays settled. A check that came to its end, or was stopped for anything
but a class that is not known, has been answered whatever it asked, so further answers of a resolver
make no difference to it. -/
namespace ClassVerifier
variable {resolver wider : Resolver} {c : ClassModel} {method : Method}

/-- The first resolver answers whatever the second one answers, and in the same way. -/
def Resolver.Extends (wider resolver : Resolver) : Prop :=
  ∀ name info, resolver name = .known info → wider name = .known info

theorem Resolver.Extends.within (more : wider.Extends resolver) (c : ClassModel) :
    (wider.within c).Extends (resolver.within c) := by
  intro name info known
  unfold Resolver.within at known ⊢
  split
  · next own => rwa [if_pos own] at known
  · next other =>
    rw [if_neg other] at known
    exact more name info known

/-- A check that needs every answer it asks for ends in the same way with more of them, unless it
was stopped for the lack of one. -/
theorem Check.Strict.run_of_extends {α : Type} {x : Check α} (strict : x.Strict)
    (answers : ∀ name message, resolver name ≠ .broken message) (more : wider.Extends resolver)
    (settled : ∀ offset name,
      x.run resolver ≠ .error (.rejected offset (.unresolvedClass name))) :
    x.run wider = x.run resolver := by
  induction x with
  | done value => rfl
  | stop fault => rfl
  | note frame opcode next ih => exact ih () strict settled
  | ask name next ih =>
    obtain ⟨⟨offset, lacking⟩, known⟩ := strict
    simp only [run] at settled ⊢
    cases said : resolver name with
    | known info =>
      rw [said] at settled
      rw [more name info said]
      exact ih _ (known info) settled
    | unknown =>
      rw [said] at settled
      refine absurd ?_ (settled offset name)
      simp only [lacking, run]
    | broken message => exact absurd said (answers name message)

/-- If a method is accepted, or rejected for another reason than a class that is not known, it is
accepted or rejected for this reason at the same offset by every resolver that knows more, and so
it is reported, whatever is remembered of the one resolver or the other. -/
theorem settled_of_extends (answers : ∀ name message, resolver name ≠ .broken message)
    (more : wider.Extends resolver)
    (settled : ∀ offset name, (method.verify c).run (resolver.within c) ≠
      .error (.rejected offset (.unresolvedClass name))) :
    (method.verify c).run (wider.within c) = (method.verify c).run (resolver.within c) ∧
    ∀ s t : Session, s.Faithful resolver → t.Faithful wider →
      (Verifier.verifyMethod wider c method t).1 =
        (Verifier.verifyMethod resolver c method s).1 := by
  have same := (method.strict_verify c).run_of_extends (Resolver.within_answers answers)
    (more.within c) settled
  refine ⟨same, fun s t hs ht => ?_⟩
  rw [Verifier.verifyMethod_fst hs, Verifier.verifyMethod_fst ht, same]

/-- Has a handler for strings. -/
def catching : Method := ⟨0x0008, "catching", "()V", some {
  maxStack := 1
  maxLocals := 0
  bytes := #[0x00, 0xb1, 0x57, 0xb1]
  handlers := [⟨0, 1, 2, 2⟩]
  stackMap := some [0, 1, 66, 7, 0, 2] }⟩

def catcher : ClassModel where
  version := 52
  access := 0x0021
  name := "Catcher"
  superclass := some ClassName.object
  methods := [catching]
  pool := .ofList [.utf8 "java/lang/String", .classRef 1]

/-- Knows the classes between strings and throwables. -/
def stringResolver : Resolver := fun name =>
  if name = ClassName.throwable ∨ name = "java/lang/String" then
    .known (.subclassOf ClassName.object)
  else if name = ClassName.object then .known ⟨false, none⟩
  else .unknown

/-- Everything else is a subclass of what it knows. -/
def opulentResolver : Resolver := fun name =>
  match stringResolver name with
  | .unknown => .known (.subclassOf ClassName.throwable)
  | answer => answer

/-- A handler for strings is refused, and knowing all other classes does not help. -/
theorem settled_of_extends_catching :
    (∀ name message, stringResolver name ≠ .broken message) ∧
      opulentResolver.Extends stringResolver ∧
      (catching.verify catcher).run (stringResolver.within catcher) =
        .error (.rejected none (.catchTypeNotThrowable 2)) ∧
      (catching.verify catcher).run (opulentResolver.within catcher) =
        .error (.rejected none (.catchTypeNotThrowable 2)) := by
  have answers (name message : String) : stringResolver name ≠ .broken message := by
    unfold stringResolver
    split
    · nofun
    · split <;> nofun
  have more : opulentResolver.Extends stringResolver := by
    intro name info known
    rw [opulentResolver, known]
  have refused : (catching.verify catcher).run (stringResolver.within catcher) =
      .error (.rejected none (.catchTypeNotThrowable 2)) := by decide +kernel
  have settled : ∀ offset name, (catching.verify catcher).run (stringResolver.within catcher) ≠
      .error (.rejected offset (.unresolvedClass name)) := by
    intro offset name
    rw [refused]
    nofun
  exact ⟨answers, more, refused, (settled_of_extends answers more settled).1.trans refused⟩

end ClassVerifier
