import ClassVerifier.Proofs.HandlerEdges
import ClassVerifier.Proofs.SimulatedWalks

/-! Exception tables only restrict. A method that is accepted stays accepted with any selection from
its exception table, however ordered and however often repeated, and its frames do not change. -/
namespace ClassVerifier
variable {r resolver : Resolver} {c : ClassModel} {method : Method} {code : Code} {m : Body}
  {initial : Frame} {handlers : List Handler}

/-- The body with another exception table. -/
def Code.withHandlers (code : Code) (handlers : List Handler) : Code := { code with handlers }

/-- The method with another exception table, if it has a body. -/
def Method.withHandlers (method : Method) (handlers : List Handler) : Method :=
  { method with code := method.code.map (·.withHandlers handlers) }

/-- The last exception table counts. -/
theorem Method.withHandlers_withHandlers (method : Method) (handlers handlers' : List Handler) :
    (method.withHandlers handlers).withHandlers handlers' = method.withHandlers handlers' := by
  rw [withHandlers, withHandlers, withHandlers, Option.map_map]
  rfl

/-- The body that is walked over when there are other handlers. -/
private def Body.withHandlers (m : Body) (handlers : List Handler) : Body :=
  { m with
    method := m.method.withHandlers handlers
    code := m.code.withHandlers handlers
    protectedStart := (m.code.withHandlers handlers).protectedRange.1
    protectedStop := (m.code.withHandlers handlers).protectedRange.2 }

namespace Code.Prepared

/-- Each handler is checked by itself. -/
private theorem withHandlers (p : code.Prepared r c method m initial)
    (fewer : ∀ h ∈ handlers, h ∈ code.handlers) :
    (code.withHandlers handlers).Prepared r c (method.withHandlers handlers)
      (m.withHandlers handlers) initial where
  owner_eq := p.owner_eq
  method_eq := congrArg (·.withHandlers handlers) p.method_eq
  code_eq := congrArg (·.withHandlers handlers) p.code_eq
  thisType_eq := p.thisType_eq
  length_ok := p.length_ok
  listing_eq := p.listing_eq
  entry_eq := p.entry_eq
  handlers_ok := checkHandlers_ok.2 fun h hh => checkHandlers_ok.1 p.handlers_ok h (fewer h hh)
  variables_ok := checkVariables_ok.2 fun v hv => checkVariables_ok.1 p.variables_ok v hv
  stackMap_eq := p.stackMap_eq
  range_eq := by rw [← p.code_eq]; rfl

private theorem relaxedBy_withHandlers (p : code.Prepared r c method m initial)
    (fewer : ∀ h ∈ handlers, h ∈ code.handlers) : m.RelaxedBy r Eq (m.withHandlers handlers) where
  thisType := ⟨c.name, p.thisType_eq⟩
  isConstructor_eq := rfl
  bytes_eq := rfl
  handlers := p.code_eq ▸ fewer
  isProtected := by
    intro offset inside
    obtain ⟨⟨h, hh, start⟩, k, hk, stop⟩ := (p.withHandlers fewer).isProtected_iff.1 inside
    exact p.isProtected_iff.2 ⟨⟨h, fewer h hh, start⟩, k, fewer k hk, stop⟩
  recorded := Body.recorded_of_replaced (List.forall₂_same.2 fun f _ => .self f)

end Code.Prepared

private theorem verify_of_fewer (accepted : (method.verify c).run r = .ok ())
    (fewer : ∀ code ∈ method.code, ∀ h ∈ handlers, h ∈ code.handlers) :
    ((method.withHandlers handlers).verify c).run r = .ok () ∧
      ((method.withHandlers handlers).verify c).notes r = (method.verify c).notes r := by
  cases body : method.code with
  | none =>
    have same : method.withHandlers handlers = method := by
      rw [Method.withHandlers, body]
      exact congrArg (fun code => { method with code }) body.symm
    rw [same]
    exact ⟨accepted, rfl⟩
  | some code =>
    have fewer := fewer code body
    have body' : (method.withHandlers handlers).code = some (code.withHandlers handlers) := by
      rw [Method.withHandlers, body, Option.map_some]
    obtain ⟨accepted', alike⟩ := Method.verify_simulated Frame.simulation_eq body body'
      (fun m initial p => ⟨m.withHandlers handlers, initial, p.withHandlers fewer,
        p.relaxedBy_withHandlers fewer, List.forall₂_same.2 fun f _ => .self f, rfl⟩) accepted
    refine ⟨accepted', ?_⟩
    rw [notes_eq_map id alike, Prod.map_id, List.map_id]

/-- A method that is accepted is accepted with every exception table whose entries all occur in its
own, and the walk holds the same frames. So the order of the entries and how often they occur do not
matter. -/
theorem verify_withHandlers :
    (∀ handlers, (method.verify c).run (resolver.within c) = .ok () →
      (∀ code ∈ method.code, ∀ h ∈ handlers, h ∈ code.handlers) →
      ((method.withHandlers handlers).verify c).run (resolver.within c) = .ok () ∧
        ((method.withHandlers handlers).verify c).notes (resolver.within c) =
          (method.verify c).notes (resolver.within c)) ∧
    ∀ handlers handlers' : List Handler, (∀ h, h ∈ handlers ↔ h ∈ handlers') →
      (((method.withHandlers handlers).verify c).run (resolver.within c) = .ok () ↔
        ((method.withHandlers handlers').verify c).run (resolver.within c) = .ok ()) := by
  have onward (handlers handlers' : List Handler) (fewer : ∀ h ∈ handlers', h ∈ handlers)
      (accepted : ((method.withHandlers handlers).verify c).run (resolver.within c) = .ok ()) :
      ((method.withHandlers handlers').verify c).run (resolver.within c) = .ok () := by
    rw [← method.withHandlers_withHandlers handlers handlers']
    refine (verify_of_fewer accepted fun code hcode => ?_).1
    obtain ⟨_, _, rfl⟩ := Option.map_eq_some_iff.1 hcode
    exact fewer
  refine ⟨fun _ => verify_of_fewer, fun handlers handlers' same => ⟨?_, ?_⟩⟩
  · exact onward _ _ fun h hh => (same h).2 hh
  · exact onward _ _ fun h hh => (same h).1 hh

/-- Stores a number, with one handler around everything in front of the return and another one
around the store only. -/
def twiceGuarded : Method := guarded.withHandlers [⟨0, 2, 3, 2⟩, ⟨1, 2, 3, 2⟩]

/-- The inner handler alone, twice over, and the two handlers the other way round. -/
theorem verify_withHandlers_twiceGuarded :
    (twiceGuarded.verify guardian).run (exceptionResolver.within guardian) = .ok () ∧
      let inner := twiceGuarded.withHandlers [⟨1, 2, 3, 2⟩, ⟨1, 2, 3, 2⟩]
      let swapped := twiceGuarded.withHandlers [⟨1, 2, 3, 2⟩, ⟨0, 2, 3, 2⟩]
      (inner.verify guardian).run (exceptionResolver.within guardian) = .ok () ∧
        (inner.verify guardian).notes (exceptionResolver.within guardian) =
          (twiceGuarded.verify guardian).notes (exceptionResolver.within guardian) ∧
        (swapped.verify guardian).run (exceptionResolver.within guardian) = .ok () := by
  have accepted : (twiceGuarded.verify guardian).run (exceptionResolver.within guardian) =
      .ok () := by decide +kernel
  have closed := @verify_withHandlers exceptionResolver guardian twiceGuarded
  obtain ⟨accepted', notes⟩ := closed.1 [⟨1, 2, 3, 2⟩, ⟨1, 2, 3, 2⟩] accepted (by decide)
  refine ⟨accepted, accepted', notes, ?_⟩
  exact (closed.2 [⟨0, 2, 3, 2⟩, ⟨1, 2, 3, 2⟩] _ fun h => by simp [or_comm]).1 accepted

end ClassVerifier
