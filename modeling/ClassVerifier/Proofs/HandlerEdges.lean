import ClassVerifier.Proofs.ControlFlow
import Mathlib.Order.MinMax

/-! Acceptance types the exceptional control flow of a method: the locals in front of an instruction
may flow into every handler that covers it, wherever in the step the handlers were checked. -/
namespace ClassVerifier
variable {r : Resolver} {c : ClassModel} {method : Method} {code : Code} {m : Body}
  {initial : Frame} {h : Handler}

private theorem foldl_min_le {start : Handler → Nat} {hs : List Handler} {n b : Nat} :
    hs.foldl (fun n h => min n (start h)) n ≤ b ↔ n ≤ b ∨ ∃ h ∈ hs, start h ≤ b := by
  induction hs generalizing n with
  | nil => simp
  | cons h hs ih => rw [List.foldl_cons, ih, min_le_iff, or_assoc, List.exists_mem_cons_iff]

private theorem lt_foldl_max {stop : Handler → Nat} {hs : List Handler} {n b : Nat} :
    b < hs.foldl (fun n h => max n (stop h)) n ↔ b < n ∨ ∃ h ∈ hs, b < stop h := by
  induction hs generalizing n with
  | nil => simp
  | cons h hs ih => rw [List.foldl_cons, ih, lt_max_iff, or_assoc, List.exists_mem_cons_iff]

/-- The one range reaches from where some handler starts to where some handler stops. -/
private theorem Code.mem_protectedRange {b : Nat} :
    (code.protectedRange.1 ≤ b ∧ b < code.protectedRange.2) ↔
      (∃ h ∈ code.handlers, h.start.toNat ≤ b) ∧ ∃ h ∈ code.handlers, b < h.stop.toNat := by
  have range : (code.protectedRange.1 ≤ b ∧ b < code.protectedRange.2) ↔
      code.handlers.foldl (fun n h => min n h.start.toNat) 65535 ≤ b ∧
        b < code.handlers.foldl (fun n h => max n h.stop.toNat) 0 := by
    unfold protectedRange
    dsimp only
    split <;> dsimp only <;> omega
  rw [range, foldl_min_le, lt_foldl_max, or_iff_right (Nat.not_lt_zero b)]
  refine and_congr_left fun ⟨h, _, stop⟩ => or_iff_right ?_
  have := h.stop.toNat_lt
  omega

theorem Code.Prepared.isProtected_iff (p : code.Prepared r c method m initial) {b : Nat} :
    m.isProtected b ↔
      (∃ h ∈ code.handlers, h.start.toNat ≤ b) ∧ ∃ h ∈ code.handlers, b < h.stop.toNat := by
  rw [← Code.mem_protectedRange, ← p.range_eq, Body.isProtected, Bool.and_eq_true,
    decide_eq_true_eq, decide_eq_true_eq]

/-- No handler covers anything outside the one range, whatever the other ranges are. -/
theorem Code.Prepared.isProtected (p : code.Prepared r c method m initial) {b : Nat}
    (hh : h ∈ code.handlers) (covers : h.covers b) : m.isProtected b := by
  rw [Handler.covers, Bool.and_eq_true, decide_eq_true_eq, decide_eq_true_eq] at covers
  exact p.isProtected_iff.2 ⟨⟨h, hh, covers.1⟩, h, hh, covers.2⟩

/-- A handler that was checked catches throwables. -/
theorem Code.accepts_caught {listing : Listing} {pool : ConstantPool} {caught : SlotType}
    (checked : (code.checkHandler listing pool h).run r = .ok ())
    (type : h.caughtType pool = .ok caught) :
    ((SlotType.reference ClassName.throwable).accepts caught).run r = .ok true := by
  obtain ⟨_, _, checked⟩ := Check.bind_ok.1 checked
  obtain ⟨_, _, checked⟩ := Check.bind_ok.1 checked
  obtain ⟨_, _, checked⟩ := Check.bind_ok.1 checked
  split at checked
  · obtain ⟨caught', type', checked⟩ := Check.bind_ok.1 checked
    obtain ⟨accepted, ha, required⟩ := Check.bind_ok.1 checked
    cases (Check.lift_ok.1 type').symm.trans type
    cases Check.require_ok.1 required
    exact ha
  · next any =>
    rw [Handler.caughtType, if_pos (Decidable.not_not.1 any)] at type
    cases type
    exact SlotType.accepts_self _

variable {vs : List Visit}

/-- What a handler finds in front of an instruction reaches the visit at the handler. -/
theorem Code.Prepared.thrown (p : code.Prepared r c method m initial)
    (t : m.Typing r initial vs) {v : Visit} (hv : v ∈ vs) (hh : h ∈ code.handlers)
    (covers : h.covers v.site.offset) :
    ∃ caught recorded, h.caughtType c.pool = .ok caught ∧
      m.stackMap.frameAt? h.target.toNat = some recorded ∧ ∃ w ∈ vs,
        w.site.offset = h.target.toNat ∧ (v.before.catching caught).Reaches r w.before := by
  have checked := t.checked v hv
  rw [← checked.offset_eq] at covers
  obtain ⟨pending, handled⟩ := checked.handled (p.isProtected hh covers)
  obtain ⟨caught, recorded, type, found, flows⟩ :=
    Body.checkHandlers_ok handled (p.code_eq ▸ hh) covers
  obtain ⟨w, hw, hsite, _, reaches⟩ := t.recorded found
  rw [p.owner_eq] at type
  exact ⟨caught, recorded, type, found, w, hw, Int.ofNat.inj hsite, reaches _ flows⟩

variable {resolver : Resolver}

/-- Around every instruction of an accepted method, the handlers start at instructions with a
recorded frame, they catch throwables, and the frame in front of the instruction flows into the
frame of the handler once the caught object alone is put on its stack. -/
theorem exceptional_flow_typed (body : method.code = some code)
    (accepted : (method.verify c).run (resolver.within c) = .ok ()) :
    ∃ m initial, (code.prepare c method).run (resolver.within c) = .ok (m, initial) ∧
      ∀ b i h, m.listing.at? b = some i → h ∈ code.handlers → h.covers b →
        ∃ f caught j recorded f', method.framesAt resolver c b = [f] ∧
          h.caughtType c.pool = .ok caught ∧
          ((SlotType.reference ClassName.throwable).accepts caught).run (resolver.within c) =
            .ok true ∧
          m.listing.at? h.target.toNat = some j ∧
          m.stackMap.frameAt? h.target.toNat = some recorded ∧
          method.framesAt resolver c h.target.toNat = [f'] ∧
          (f.catching caught).Flows (resolver.within c) f' := by
  obtain ⟨m, initial, vs, prepared, t, frames⟩ := Method.verify_typing body accepted
  have p := Code.prepare_ok prepared
  refine ⟨m, initial, prepared, fun b i h hi hh covers => ?_⟩
  obtain ⟨v, hv, rfl, rfl⟩ := p.exists_visit_at t hi
  obtain ⟨caught, recorded, type, found, w, hw, hsite, flows, _⟩ := p.thrown t hv hh covers
  have throwable := Code.accepts_caught (Code.checkHandlers_ok.1 p.handlers_ok h hh) type
  exact ⟨v.before, caught, w.site, recorded, w.before, frames v hv, type, throwable,
    hsite ▸ p.at?_site t hw, found, hsite ▸ frames w hw, flows⟩

/-- Stores a number, with a handler around it that drops what it caught. -/
def guardedCode : Code where
  maxStack := 1
  maxLocals := 1
  bytes := #[0x03, 0x3b, 0xb1, 0x57, 0xb1]
  handlers := [⟨0, 2, 3, 2⟩]
  stackMap := some [0, 1, 67, 7, 0, 2]

def guarded : Method := ⟨0x0008, "guarded", "()V", some guardedCode⟩

def guardian : ClassModel where
  version := 52
  access := 0x0021
  name := "Guardian"
  superclass := some ClassName.object
  methods := [guarded]
  pool := .ofList [.utf8 "java/lang/Exception", .classRef 1]

def exceptionResolver : Resolver := fun name =>
  if name = "java/lang/Exception" then .known (.subclassOf ClassName.throwable)
  else if name = ClassName.throwable then .known (.subclassOf ClassName.object)
  else .unknown

/-- The handler around the store. -/
theorem exceptional_flow_typed_guarded :
    (guarded.verify guardian).run (exceptionResolver.within guardian) = .ok () ∧
      ∃ f caught f', guarded.framesAt exceptionResolver guardian 1 = [f] ∧
        ((SlotType.reference ClassName.throwable).accepts caught).run
          (exceptionResolver.within guardian) = .ok true ∧
        guarded.framesAt exceptionResolver guardian 3 = [f'] ∧
        (f.catching caught).Flows (exceptionResolver.within guardian) f' := by
  have accepted : (guarded.verify guardian).run (exceptionResolver.within guardian) = .ok () := by
    decide +kernel
  have body : guarded.code = some guardedCode := rfl
  obtain ⟨m, initial, prepared, typed⟩ := exceptional_flow_typed body accepted
  have start : m.listing.at? 1 = some ⟨1, 0x3b, 1, .store (.number .int) 0⟩ :=
    (Code.prepare_ok prepared).listed (by decide +kernel)
  obtain ⟨f, caught, _, _, f', frame, _, throwable, _, _, frame', flows⟩ :=
    typed 1 _ ⟨0, 2, 3, 2⟩ start List.mem_cons_self (by decide)
  exact ⟨accepted, f, caught, f', frame, throwable, frame', flows⟩

end ClassVerifier
