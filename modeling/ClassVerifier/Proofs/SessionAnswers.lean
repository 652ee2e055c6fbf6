import ClassVerifier.Session

/-! What a session hears and what it keeps. Remembered answers are those that the resolver gave, so
a check comes to the same end whether or not answers are remembered. -/
namespace ClassVerifier
variable {α : Type} {resolver : Resolver} {c : ClassModel} {s : Session}

/-- The class itself is known, so a resolver that always answers does so for the checks of a
class. -/
theorem Resolver.within_answers (answers : ∀ name message, resolver name ≠ .broken message)
    (name message : String) : resolver.within c name ≠ .broken message := by
  unfold Resolver.within
  split
  · nofun
  · exact answers name message

/-- The resolver as the session hears it: what is remembered is not asked again. -/
def Session.answers (s : Session) (resolver : Resolver) : Resolver := fun name =>
  match s.answered[name]? with
  | some info => .known info
  | none => resolver name

namespace Session

@[simp] theorem answers_record (e : Event) :
    (s.record e).answers resolver = s.answers resolver := by
  unfold record
  split
  · split <;> rfl
  · rfl

/-- Nothing is heard that the resolver does not say or did not say before. -/
theorem broken_of_answers {name message : String} (h : s.answers resolver name = .broken message) :
    resolver name = .broken message := by
  unfold answers at h
  split at h
  · cases h
  · exact h

/-- An answer that is remembered does not change what is heard. -/
theorem answers_remember {name : String} {info : ClassInfo} (fresh : s.answered[name]? = none)
    (known : resolver name = .known info) :
    answers { s with answered := s.answered.insert name info } resolver = s.answers resolver := by
  funext other
  unfold answers
  by_cases same : name = other
  · subst same
    rw [Std.HashMap.getElem?_insert_self, fresh, known]
  · rw [Std.HashMap.getElem?_insert, if_neg (by simpa using same)]

/-- A session ends a check as its answers do. -/
theorem handle_fst (x : Check α) :
    (handle resolver c x s).1 = x.run ((s.answers resolver).within c) := by
  induction x generalizing s with
  | done value => rfl
  | stop fault => rfl
  | note frame opcode next ih =>
    rw [handle, Check.run, ih, answers_record]
  | ask name next ih =>
    rw [handle, Check.run]
    by_cases own : name = c.name
    · rw [if_pos own, Resolver.within, if_pos own]
      exact ih _
    · rw [if_neg own, Resolver.within, if_neg own]
      cases answer : s.answered[name]? with
      | some info =>
        have heard : s.answers resolver name = .known info := by rw [answers, answer]
        rw [heard]
        exact ih _
      | none =>
        have heard : s.answers resolver name = resolver name := by rw [answers, answer]
        rw [heard]
        cases said : resolver name with
        | known info =>
          refine (ih (some info)).trans ?_
          rw [answers_remember (s := { s with asked := s.asked.push name }) answer said]
          rfl
        | unknown => exact ih none
        | broken message => rfl

/-- Whatever is remembered, the resolver says as well. -/
def Faithful (s : Session) (resolver : Resolver) : Prop :=
  ∀ name info, s.answered[name]? = some info → resolver name = .known info

namespace Faithful

/-- Nothing is remembered. -/
theorem of_empty (h : s.answered = {}) : s.Faithful resolver := by
  intro name info remembered
  rw [h, Std.HashMap.getElem?_empty] at remembered
  cases remembered

theorem answers_eq (h : s.Faithful resolver) : s.answers resolver = resolver := by
  funext name
  unfold answers
  split
  · next info remembered => exact (h name info remembered).symm
  · rfl

theorem record (h : s.Faithful resolver) (e : Event) : (s.record e).Faithful resolver := by
  unfold Session.record
  split
  · split <;> exact h
  · exact h

theorem remember (h : s.Faithful resolver) {name : String} {info : ClassInfo}
    (known : resolver name = .known info) :
    Faithful { s with answered := s.answered.insert name info } resolver := by
  intro other info' remembered
  rw [Std.HashMap.getElem?_insert] at remembered
  split at remembered
  · next same =>
    cases remembered
    rwa [← eq_of_beq same]
  · exact h other info' remembered

/-- What a check leaves behind is still what the resolver says, even if the check breaks down. -/
theorem handle (h : s.Faithful resolver) (x : Check α) :
    (Session.handle resolver c x s).2.Faithful resolver := by
  induction x generalizing s with
  | done value => exact h
  | stop fault => exact h
  | note frame opcode next ih => exact ih () (h.record _)
  | ask name next ih =>
    rw [Session.handle]
    split
    · exact ih _ h
    · split
      · exact ih _ h
      · dsimp only
        split
        · next known =>
          exact ih _ (remember (s := { s with asked := s.asked.push name }) h known)
        · exact ih none h
        · exact h

end Faithful

@[simp] theorem legacyCalls_record (e : Event) : (s.record e).legacyCalls = s.legacyCalls := by
  unfold record
  split
  · split <;> rfl
  · rfl

/-- No check calls the legacy verifier. -/
theorem legacyCalls_handle (x : Check α) :
    (handle resolver c x s).2.legacyCalls = s.legacyCalls := by
  induction x generalizing s with
  | done value => rfl
  | stop fault => rfl
  | note frame opcode next ih => exact (ih ()).trans (legacyCalls_record _)
  | ask name next ih =>
    rw [handle]
    split
    · exact ih _
    · split
      · exact ih _
      · dsimp only
        split
        · exact ih _
        · exact ih none
        · rfl

end Session
end ClassVerifier
