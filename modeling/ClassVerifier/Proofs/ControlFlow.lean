import ClassVerifier.Proofs.Typing

/-! Acceptance types the normal control flow of a method: the frame behind each instruction may flow
into the frame in front of every instruction that can come next. -/
namespace ClassVerifier
variable {r : Resolver} {m : Body} {initial : Frame} {vs : List Visit}

/-- The frame behind an instruction reaches the visits at all of its targets. -/
theorem Body.Typing.jump (t : m.Typing r initial vs) {v : Visit} (hv : v ∈ vs) {target : Int}
    (ht : target ∈ v.site.instruction.targets) :
    ∃ recorded, m.stackMap.frameAt? target = some recorded ∧ ∃ w ∈ vs,
      (w.site.offset : Int) = target ∧ w.before.Agrees recorded ∧ v.after.Reaches r w.before := by
  obtain ⟨recorded, found, _, flows⟩ := (Body.execute_ok.1 (t.checked v hv).executed).2 target ht
  obtain ⟨w, hw, hsite, agrees, reaches⟩ := t.recorded found
  exact ⟨recorded, found, w, hw, hsite, agrees, reaches _ flows⟩

variable {resolver : Resolver} {c : ClassModel} {method : Method} {code : Code}

/-- Every instruction of an accepted method has exactly one frame. The frame that the method begins
with flows into the first one. Each instruction executes on its frame; if control goes on behind it,
there is a next instruction whose frame the result flows into, and at each of its jump targets an
instruction starts whose frame is as recorded there and takes the result. -/
theorem control_flow_typed (body : method.code = some code)
    (accepted : (method.verify c).run (resolver.within c) = .ok ()) :
    ∃ m initial, (code.prepare c method).run (resolver.within c) = .ok (m, initial) ∧
      Frame.entry method (.reference c.name) code.maxLocals.toNat code.maxStack.toNat =
        .ok (initial, m.resultType) ∧
      (∃ f, method.framesAt resolver c 0 = [f] ∧ initial.Flows (resolver.within c) f) ∧
      ∀ b i, m.listing.at? b = some i → ∃ f flow after,
        method.framesAt resolver c b = [f] ∧
        (m.execute i.instruction f).run (resolver.within c) = .ok (flow, after) ∧
        (flow.continues → ∃ j f', m.listing.at? i.next = some j ∧
          method.framesAt resolver c i.next = [f'] ∧ after.Flows (resolver.within c) f') ∧
        ∀ target ∈ i.instruction.targets, ∃ (b' : Nat) (j : Located) (recorded f' : Frame),
          (b' : Int) = target ∧ b' < code.bytes.size ∧ m.listing.at? b' = some j ∧
          m.stackMap.frameAt? target = some recorded ∧
          method.framesAt resolver c b' = [f'] ∧ f'.Agrees recorded ∧
          after.Flows (resolver.within c) f' := by
  obtain ⟨m, initial, vs, prepared, t, frames⟩ := Method.verify_typing body accepted
  have p := Code.prepare_ok prepared
  refine ⟨m, initial, prepared, p.entry_eq, ?_, ?_⟩
  · obtain ⟨v, hv, hsite, flows, _⟩ := t.first
    exact ⟨v.before, hsite ▸ frames v hv, flows⟩
  · intro b i hi
    obtain ⟨v, hv, rfl, rfl⟩ := p.exists_visit_at t hi
    refine ⟨v.before, v.flow, v.after, frames v hv, (t.checked v hv).executed, ?_, ?_⟩
    · intro continues
      obtain ⟨w, hw, hsite, flows, _⟩ := t.next v hv continues
      exact ⟨w.site, w.before, hsite ▸ p.at?_site t hw, hsite ▸ frames w hw, flows⟩
    · intro target ht
      obtain ⟨recorded, found, w, hw, hsite, agrees, flows, _⟩ := t.jump hv ht
      have inside := ((Listing.covers_ofCode p.listing_eq).mem (t.site_mem hw)).2.2
      exact ⟨w.site.offset, w.site, recorded, w.before, hsite, inside, p.at?_site t hw, found,
        frames w hw, agrees, flows⟩

/-- A loop that counts its parameter down to zero; its head and its end are recorded. -/
def countdownCode : Code where
  maxStack := 1
  maxLocals := 1
  bytes := #[0x1a, 0x99, 0x00, 0x09, 0x84, 0x00, 0xff, 0xa7, 0xff, 0xf9, 0xb1]
  stackMap := some [0, 2, 0, 9]

def countdown : Method := ⟨0x0008, "countdown", "(I)V", some countdownCode⟩

def counter : ClassModel where
  version := 52
  access := 0x0021
  name := "Counter"
  superclass := some ClassName.object
  methods := [countdown]

/-- The jump back to the head of the loop. -/
theorem control_flow_typed_countdown :
    (countdown.verify counter).run (Resolver.within (fun _ => .unknown) counter) = .ok () ∧
      ∃ m f flow after f', countdown.framesAt (fun _ => .unknown) counter 7 = [f] ∧
        (Body.execute m (.jump 0) f).run (Resolver.within (fun _ => .unknown) counter) =
          .ok (flow, after) ∧
        countdown.framesAt (fun _ => .unknown) counter 0 = [f'] ∧
        after.Flows (Resolver.within (fun _ => .unknown) counter) f' := by
  have accepted : (countdown.verify counter).run (Resolver.within (fun _ => .unknown) counter) =
      .ok () := by decide +kernel
  have body : countdown.code = some countdownCode := rfl
  obtain ⟨m, initial, prepared, _, _, typed⟩ := control_flow_typed body accepted
  have start : m.listing.at? 7 = some ⟨7, 0xa7, 3, .jump 0⟩ :=
    (Code.prepare_ok prepared).listed (by decide +kernel)
  obtain ⟨f, flow, after, frame, executed, _, targets⟩ := typed 7 _ start
  obtain ⟨b, _, _, f', hb, _, _, _, frame', _, flows⟩ := targets 0 List.mem_cons_self
  cases hb
  exact ⟨accepted, m, f, flow, after, f', frame, executed, frame', flows⟩

end ClassVerifier
