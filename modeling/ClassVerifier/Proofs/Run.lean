import ClassVerifier.Check

/-! What it takes for a check to run through: each part of it succeeds, and hands its value to the
next. The notes of a check that is made of parts are those of its parts. -/
namespace ClassVerifier

theorem except_bind_ok {ε α β : Type} {x : Except ε α} {f : α → Except ε β} {b : β} :
    x >>= f = .ok b ↔ ∃ a, x = .ok a ∧ f a = .ok b := by
  cases x <;> simp [bind, Except.bind]

theorem except_ite_ok {ε α : Type} {p : Prop} [Decidable p] {a b : α} {e : ε} :
    (if p then .ok a else .error e : Except ε α) = .ok b ↔ p ∧ a = b := by
  split <;> simp [*]

namespace Check
variable {α β : Type} {r : Resolver}

private theorem run_bind (x : Check α) (f : α → Check β) :
    (x >>= f).run r = (x.run r).bind fun a => (f a).run r := by
  change (x.bind f).run r = _
  induction x with
  | done value => rfl
  | stop fault => rfl
  | ask name next ih =>
    simp only [Check.bind, run]
    cases r name with
    | known info => exact ih _
    | unknown => exact ih _
    | broken message => rfl
  | note frame opcode next ih => exact ih ()

@[simp] theorem bind_ok {x : Check α} {f : α → Check β} {b : β} :
    (x >>= f).run r = .ok b ↔ ∃ a, x.run r = .ok a ∧ (f a).run r = .ok b := by
  rw [run_bind]
  exact except_bind_ok

theorem run_bind_of_ok {x : Check α} {f : α → Check β} {a : α} (h : x.run r = .ok a) :
    (x >>= f).run r = (f a).run r := by
  rw [run_bind, h]
  rfl

/-- A check of two parts is stopped by one of them. -/
theorem bind_error {x : Check α} {f : α → Check β} {fault : Fault} :
    (x >>= f).run r = .error fault ↔
      x.run r = .error fault ∨ ∃ a, x.run r = .ok a ∧ (f a).run r = .error fault := by
  rw [run_bind]
  cases x.run r <;> simp [Except.bind]

@[simp] theorem pure_ok {a b : α} : (pure a : Check α).run r = .ok b ↔ a = b := by
  simp [pure, run]

@[simp] theorem reject_ok {c : Cause} {b : α} : (reject c : Check α).run r = .ok b ↔ False := by
  simp [reject, run]

@[simp] theorem crash_ok {message : String} {b : α} :
    (crash message : Check α).run r = .ok b ↔ False := by
  simp [crash, run]

@[simp] theorem lift_ok {x : Except Cause α} {b : α} :
    (liftM x : Check α).run r = .ok b ↔ x = .ok b := by
  change (ofExcept x).run r = .ok b ↔ x = .ok b
  cases x <;> simp [ofExcept, reject, run]

@[simp] theorem ofOption_ok {c : Cause} {x : Option α} {b : α} :
    (ofOption c x).run r = .ok b ↔ x = some b := by
  cases x <;> simp [ofOption, reject, run]

@[simp] theorem require_ok {condition : Bool} {c : Cause} {u : Unit} :
    (require condition c).run r = .ok u ↔ condition = true := by
  cases condition <;> simp [require, reject, run]

@[simp] theorem located_ok {offset : Nat} {x : Check α} {b : α} :
    (x.located offset).run r = .ok b ↔ x.run r = .ok b := by
  induction x with
  | done value => rfl
  | stop fault => cases fault <;> simp [located, run]
  | ask name next ih =>
    simp only [located, run]
    cases r name with
    | known info => exact ih _
    | unknown => exact ih _
    | broken message => simp
  | note frame opcode next ih => exact ih ()

theorem notes_bind_of_ok {x : Check α} {f : α → Check β} {a : α} (h : x.run r = .ok a) :
    (x >>= f).notes r = x.notes r ++ (f a).notes r := by
  change (x.bind f).notes r = _
  induction x with
  | done value =>
    cases h
    rfl
  | stop fault => simp [run] at h
  | ask name next ih =>
    simp only [Check.bind, notes, run] at h ⊢
    cases hr : r name with
    | known info => exact ih _ (by simpa [hr] using h)
    | unknown => exact ih _ (by simpa [hr] using h)
    | broken message => simp [hr] at h
  | note frame opcode next ih => exact congrArg ((frame, opcode) :: ·) (ih () h)

theorem notes_bind_of_error {x : Check α} {f : α → Check β} {fault : Fault}
    (h : x.run r = .error fault) : (x >>= f).notes r = x.notes r := by
  change (x.bind f).notes r = _
  induction x with
  | done value => cases h
  | stop fault => rfl
  | ask name next ih =>
    simp only [Check.bind, notes, run] at h ⊢
    cases hr : r name with
    | known info => exact ih _ (by simpa [hr] using h)
    | unknown => exact ih _ (by simpa [hr] using h)
    | broken message => rfl
  | note frame opcode next ih => exact congrArg ((frame, opcode) :: ·) (ih () h)

/-- A check that never notes an instruction, whatever the answers. -/
def Silent : Check α → Prop
  | done _ | stop _ => True
  | ask _ next => ∀ answer, (next answer).Silent
  | note .. => False

/-- A first part that notes nothing leaves the notes to the second, if it gets that far. -/
theorem Silent.notes_bind {x : Check α} (h : x.Silent) (f : α → Check β) :
    (x >>= f).notes r = match x.run r with
      | .ok a => (f a).notes r
      | .error _ => [] := by
  change (x.bind f).notes r = _
  induction x with
  | done value => rfl
  | stop fault => rfl
  | ask name next ih =>
    simp only [Check.bind, notes, run]
    cases r name with
    | known info => exact ih _ (h _)
    | unknown => exact ih _ (h _)
    | broken message => rfl
  | note frame opcode next => exact h.elim

theorem Silent.notes_eq {x : Check α} (h : x.Silent) : x.notes r = [] := by
  induction x with
  | done value => rfl
  | stop fault => rfl
  | ask name next ih =>
    simp only [notes]
    cases r name with
    | known info => exact ih _ (h _)
    | unknown => exact ih _ (h _)
    | broken message => rfl
  | note frame opcode next => exact h.elim

end Check
end ClassVerifier
