import ClassVerifier.Proofs.HandlerEdges

/-! No constructor call initializes the receiver of a method where a handler covers it. The handler
would have to take the frame with the receiver pending and the one with the receiver gone, and no
recorded frame takes both, whatever the handler does. -/
namespace ClassVerifier
variable {r resolver : Resolver} {c : ClassModel} {method : Method} {code : Code} {m : Body}
  {initial : Frame} {vs : List Visit} {h : Handler}

namespace Code.Prepared

/-- A handler that has taken a frame with the receiver pending takes none that does not hold the
receiver: its recorded frame is pending, so it has the receiver among its locals. -/
theorem holds_of_checked (p : code.Prepared r c method m initial) {f g : Frame} {pending : Bool}
    (first : (m.checkHandler f true h).run r = .ok ())
    (second : (m.checkHandler g pending h).run r = .ok ()) : .uninitializedThis ∈ g.locals := by
  obtain ⟨_, recorded, _, found, flows⟩ := Body.checkHandler_ok first
  obtain ⟨caught, again, type, found', flows'⟩ := Body.checkHandler_ok second
  cases found.symm.trans found'
  have admitted := p.recorded.admitted recorded (StackMap.frameAt?_some found).1
  have waiting : recorded.thisPending := flows.thisPending (Bool.or_true _)
  have held : recorded.Holds .uninitializedThis :=
    .inl (Frame.mem_locals_of_used (admitted.pending_iff.1 waiting))
  rcases flows'.holds admitted.regular rfl held with slot | slot
  · exact slot
  · obtain ⟨name, rfl⟩ := Handler.caughtType_ok type
    cases List.mem_singleton.1 slot

theorem not_checked_settled (p : code.Prepared r c method m initial) {f : Frame} {pending : Bool}
    (first : (m.checkHandler f true h).run r = .ok ()) :
    (m.checkHandler (f.replaceAll .uninitializedThis m.thisType) pending h).run r ≠ .ok () := by
  intro second
  have held := p.holds_of_checked first second
  rcases Frame.holds_replaceAll (.inl held) with gone | ⟨_, gone⟩
  · rw [p.thisType_eq] at gone
    cases gone
  · exact gone rfl

/-- A step that initializes the receiver has no handler around it. -/
theorem not_covers_of_constructs (p : code.Prepared r c method m initial)
    (visits : m.Visits r 0 ⟨initial, m.stackMap.frames.toList, false⟩ vs)
    {v : Visit} (hv : v ∈ vs) {owner : String}
    (call : m.Constructs v.site.instruction v.before owner .uninitializedThis)
    (hh : h ∈ code.handlers) : ¬h.covers v.site.offset := by
  intro covers
  have checked := (p.typing visits).checked v hv
  have effect := checked.effect
  rw [← checked.offset_eq] at covers
  have guarded := p.isProtected hh covers
  rw [← p.code_eq] at hh
  have free : ¬v.site.instruction.isStore := by
    obtain ⟨_, _, _, is, _⟩ := call
    rw [is]
    nofun
  have behind := Body.step_handled (visits.stepped v hv) free guarded
  rw [← effect.offset_eq] at covers
  have second := Body.checkHandler_of_checkHandlers behind hh covers
  rw [effect.offset_eq] at covers
  generalize v.flow = flow, v.after = g at effect second
  cases effect with
  | moves _ _ _ ordinary => exact ordinary owner _ call
  | writes is => exact free (is ▸ rfl)
  | constructs called how moves =>
    cases called.receiver_eq call
    cases how with
    | this near handled =>
      have first := (handled guarded).2
      rw [← Body.checkHandlers_of_moves moves] at first
      rw [← moves.offset_eq] at covers
      exact p.not_checked_settled (Body.checkHandler_of_checkHandlers first hh covers) second

end Code.Prepared

/-- No handler takes both the frame in front of a call that initializes the receiver and the one
behind it, the receiver counting as pending both times. So no handler of an accepted method covers
such a call, whether or not it is ever reached and wherever the handler leads. -/
theorem receiver_initialized_unprotected (body : method.code = some code)
    (accepted : (method.verify c).run (resolver.within c) = .ok ()) :
    ∃ m initial, (code.prepare c method).run (resolver.within c) = .ok (m, initial) ∧
      (∀ h f, (m.checkHandler f true h).run (resolver.within c) = .ok () →
        (m.checkHandler (f.replaceAll .uninitializedThis m.thisType) true h).run
          (resolver.within c) ≠ .ok ()) ∧
      ∀ b i, m.listing.at? b = some i → ∃ f, method.framesAt resolver c b = [f] ∧
        ∀ owner, m.Constructs i.instruction f owner .uninitializedThis →
          ∀ h ∈ code.handlers, ¬h.covers b := by
  obtain ⟨m, initial, vs, prepared, visits, frames⟩ := Method.verify_visits body accepted
  have p := Code.prepare_ok prepared
  refine ⟨m, initial, prepared, fun h f first => p.not_checked_settled first, fun b i hi => ?_⟩
  obtain ⟨v, hv, rfl, rfl⟩ := p.exists_visit_at (p.typing visits) hi
  refine ⟨v.before, frames v hv, fun owner call h hh => ?_⟩
  exact p.not_covers_of_constructs visits hv call hh

/-- Calls the constructor of the superclass; then a handler that throws covers a `nop`. -/
def carefulCode : Code where
  maxStack := 1
  maxLocals := 1
  bytes := #[0x2a, 0xb7, 0x00, 0x06, 0x00, 0xb1, 0xbf]
  handlers := [⟨4, 5, 6, 0⟩]
  stackMap := some [0, 1, 255, 0, 6, 0, 1, 7, 0, 8, 0, 1, 7, 0, 10]

def carefulConstructor : Method := ⟨0x0001, "<init>", "()V", some carefulCode⟩

def carefulClass : ClassModel where
  version := 52
  access := 0x0021
  name := "Careful"
  superclass := some ClassName.object
  methods := [carefulConstructor]
  pool := .ofList [.utf8 ClassName.object, .classRef 1, .utf8 "<init>", .utf8 "()V",
    .nameAndType 3 4, .methodRef 2 5, .utf8 "Careful", .classRef 7, .utf8 ClassName.throwable,
    .classRef 9]

/-- The handler does not cover the call. -/
theorem receiver_initialized_unprotected_careful :
    (carefulConstructor.verify carefulClass).run
        (Resolver.within (fun _ => .unknown) carefulClass) = .ok () ∧
      ∃ m f, carefulConstructor.framesAt (fun _ => .unknown) carefulClass 1 = [f] ∧
        Body.Constructs m (.call .special 6) f ClassName.object .uninitializedThis ∧
        ∀ h ∈ carefulCode.handlers, ¬h.covers 1 := by
  have accepted : (carefulConstructor.verify carefulClass).run
      (Resolver.within (fun _ => .unknown) carefulClass) = .ok () := by decide +kernel
  have body : carefulConstructor.code = some carefulCode := rfl
  obtain ⟨m, initial, prepared, _, typed⟩ := receiver_initialized_unprotected body accepted
  have p := Code.prepare_ok prepared
  have call : m.listing.at? 1 = some ⟨1, 0xb7, 3, .call .special 6⟩ := p.listed (by decide +kernel)
  obtain ⟨f, frame, free⟩ := typed 1 _ call
  have slots : (carefulConstructor.framesAt (fun _ => .unknown) carefulClass 1).map
      (·.stack.slots) = [[.uninitializedThis]] := by decide +kernel
  rw [frame] at slots
  have top : f.stack.slots = [.uninitializedThis] := (List.cons.inj slots).1
  have constructs : m.Constructs (.call .special 6) f ClassName.object .uninitializedThis := by
    refine ⟨6, "()V", ⟨[], none⟩, rfl, ?_⟩
    rw [p.owner_eq, top]
    decide +kernel
  exact ⟨accepted, m, f, frame, constructs, free _ constructs⟩

end ClassVerifier
