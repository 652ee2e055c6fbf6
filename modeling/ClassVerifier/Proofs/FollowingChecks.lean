import ClassVerifier.Proofs.Run

/-! Checks that follow others: whenever the one succeeds, the other one succeeds as well, with
values that are related. -/
namespace ClassVerifier
variable {r : Resolver}

/-- Whenever the second computation has a value, the first one has a value related to it. -/
def Follows {ε α β : Type} (R : α → β → Prop) (x : Except ε α) (y : Except ε β) : Prop :=
  ∀ b, y = .ok b → ∃ a, x = .ok a ∧ R a b

namespace Follows
variable {ε α β γ δ : Type} {R : α → β → Prop} {S : γ → δ → Prop}

theorem ok {a : α} {b : β} (h : R a b) : Follows R (.ok a : Except ε α) (.ok b) := by
  rintro _ ⟨rfl⟩
  exact ⟨a, rfl, h⟩

theorem error {x : Except ε α} {e : ε} : Follows R x (.error e : Except ε β) := nofun

theorem refl (x : Except ε α) : Follows Eq x x := fun a h => ⟨a, h, rfl⟩

theorem bind {x : Except ε α} {y : Except ε β} {f : α → Except ε γ} {g : β → Except ε δ}
    (h : Follows R x y) (hfg : ∀ a b, R a b → Follows S (f a) (g b)) :
    Follows S (x >>= f) (y >>= g) := by
  intro d hd
  obtain ⟨b, hb, hd⟩ := except_bind_ok.1 hd
  obtain ⟨a, ha, related⟩ := h b hb
  obtain ⟨c, hc, hs⟩ := hfg a b related d hd
  exact ⟨c, except_bind_ok.2 ⟨a, ha, hc⟩, hs⟩

/-- A first part that they share. -/
theorem same {x : Except ε α} {f : α → Except ε γ} {g : α → Except ε δ}
    (h : ∀ a, x = .ok a → Follows S (f a) (g a)) : Follows S (x >>= f) (x >>= g) := by
  intro d hd
  obtain ⟨a, ha, hd⟩ := except_bind_ok.1 hd
  obtain ⟨c, hc, hs⟩ := h a ha d hd
  exact ⟨c, except_bind_ok.2 ⟨a, ha, hc⟩, hs⟩

end Follows

namespace Check
variable {α β γ δ : Type} {R : α → β → Prop} {S : γ → δ → Prop}

/-- Whenever the second check succeeds, so does the first one, with a value related to the other. -/
def Follows (r : Resolver) (R : α → β → Prop) (x : Check α) (y : Check β) : Prop :=
  ClassVerifier.Follows R (x.run r) (y.run r)

namespace Follows

theorem refl (x : Check α) : x.Follows r Eq x := ClassVerifier.Follows.refl _

theorem imp {Q : α → β → Prop} {x : Check α} {y : Check β} (h : x.Follows r R y)
    (imply : ∀ a b, R a b → Q a b) : x.Follows r Q y := fun b hb =>
  let ⟨a, ha, related⟩ := h b hb
  ⟨a, ha, imply a b related⟩

/-- Where it matters what the values are. -/
theorem bind_of_ok {x : Check α} {y : Check β} {f : α → Check γ} {g : β → Check δ}
    (h : x.Follows r R y)
    (hfg : ∀ a b, x.run r = .ok a → y.run r = .ok b → R a b → (f a).Follows r S (g b)) :
    (x >>= f).Follows r S (y >>= g) := by
  intro d hd
  obtain ⟨b, hb, hd⟩ := bind_ok.1 hd
  obtain ⟨a, ha, related⟩ := h b hb
  obtain ⟨c, hc, hs⟩ := hfg a b ha hb related d hd
  exact ⟨c, bind_ok.2 ⟨a, ha, hc⟩, hs⟩

theorem bind {x : Check α} {y : Check β} {f : α → Check γ} {g : β → Check δ}
    (h : x.Follows r R y) (hfg : ∀ a b, R a b → (f a).Follows r S (g b)) :
    (x >>= f).Follows r S (y >>= g) :=
  h.bind_of_ok fun a b _ _ => hfg a b

/-- A first part that they share. -/
theorem same {x : Check α} {f : α → Check γ} {g : α → Check δ}
    (h : ∀ a, x.run r = .ok a → (f a).Follows r S (g a)) : (x >>= f).Follows r S (x >>= g) := by
  intro d hd
  obtain ⟨a, ha, hd⟩ := bind_ok.1 hd
  obtain ⟨c, hc, hs⟩ := h a ha d hd
  exact ⟨c, bind_ok.2 ⟨a, ha, hc⟩, hs⟩

/-- A first part that only the second check has. -/
theorem skip {x : Check γ} {y : Check β} {g : β → Check δ}
    (h : ∀ b, y.run r = .ok b → x.Follows r S (g b)) : x.Follows r S (y >>= g) := by
  intro d hd
  obtain ⟨b, hb, hd⟩ := bind_ok.1 hd
  exact h b hb d hd

/-- A branch that the first check takes only where the second one takes it too. -/
theorem branch {p q : Bool} {x x' : Check γ} {y y' : Check δ} (h : p → q)
    (both : p → x.Follows r S y) (upper : x'.Follows r S y) (neither : x'.Follows r S y') :
    (if p then x else x').Follows r S (if q then y else y') := by
  by_cases hp : p
  · rw [if_pos hp, if_pos (h hp)]
    exact both hp
  · rw [if_neg hp]
    split
    · exact upper
    · exact neither

/-- A first part that the first check has only where the second one has it too. -/
theorem when {p q : Bool} {x y : Check Unit} {f : Unit → Check γ} {g : Unit → Check δ}
    (h : p → q) (hxy : p → x.Follows r (fun _ _ => True) y) (hfg : (f ()).Follows r S (g ())) :
    (if p then x >>= f else f ()).Follows r S (if q then y >>= g else g ()) :=
  branch h (fun hp => (hxy hp).bind fun _ _ _ => hfg) (skip fun _ _ => hfg) hfg

theorem pure {a : α} {b : β} (h : R a b) :
    (Pure.pure a : Check α).Follows r R (Pure.pure b) := .ok h

theorem reject {x : Check α} {cause : Cause} : x.Follows r R (reject cause : Check β) := .error

theorem lift {x : Except Cause α} {y : Except Cause β} (h : ClassVerifier.Follows R x y) :
    (liftM x : Check α).Follows r R (liftM y) := by
  intro b hb
  obtain ⟨a, ha, related⟩ := h b (lift_ok.1 hb)
  exact ⟨a, lift_ok.2 ha, related⟩

/-- A demand on both, and what comes behind it. -/
theorem require {p q : Bool} {cause cause' : Cause} {f : Unit → Check γ} {g : Unit → Check δ}
    (h : q = true → p = true) (hfg : q = true → (f ()).Follows r S (g ())) :
    (Check.require p cause >>= f).Follows r S (Check.require q cause' >>= g) := by
  intro d hd
  obtain ⟨_, hq, hd⟩ := bind_ok.1 hd
  have hq := require_ok.1 hq
  obtain ⟨c, hc, hs⟩ := hfg hq d hd
  exact ⟨c, bind_ok.2 ⟨(), require_ok.2 (h hq), hc⟩, hs⟩

/-- A question that the second check goes on from only if the answer is yes. -/
theorem test {x y : Check Bool} {f : Bool → Check γ} {g : Bool → Check δ}
    (h : y.run r = .ok true → x.run r = .ok true) (refused : ∀ d, (g false).run r ≠ .ok d)
    (hfg : y.run r = .ok true → (f true).Follows r S (g true)) :
    (x >>= f).Follows r S (y >>= g) := by
  intro d hd
  obtain ⟨answer, hy, hd⟩ := bind_ok.1 hd
  cases answer with
  | false => exact absurd hd (refused d)
  | true =>
    obtain ⟨c, hc, hs⟩ := hfg hy d hd
    exact ⟨c, bind_ok.2 ⟨true, h hy, hc⟩, hs⟩

end Follows
end Check

end ClassVerifier
