import ClassVerifier.Proofs.Paths

/-! Creation sites dominate the objects they create: on every path to a frame that holds an object
before its constructor ran, the allocation of that object was executed. -/
namespace ClassVerifier
variable {r : Resolver} {c : ClassModel} {method : Method} {code : Code} {m : Body}
  {initial : Frame} {vs : List Visit} {steps : List (Located × Exit)} {x : Located}

/-- Some step allocates the object that is named by the offset, and goes on to the next
instruction. -/
def Allocated (steps : List (Located × Exit)) (offset : Nat) : Prop :=
  ∃ i index, (i, .next) ∈ steps ∧ i.offset = offset ∧ i.instruction = .new index

namespace Code.Prepared

theorem allocated_of_holds (p : code.Prepared r c method m initial)
    (t : m.Typing r initial vs) (path : m.Path steps x) :
    ∃ v ∈ vs, v.site = x ∧ ∀ n, v.before.Holds (.uninitialized n) → Allocated steps n := by
  apply p.along_path t (P := fun steps f => ∀ n, f.Holds (.uninitialized n) → Allocated steps n)
    _ _ path
  · intro g regular reaches n hold
    have first := reaches.1.holds regular rfl hold
    cases (Frame.holds_entry p.entry_eq rfl first).1
  · intro v hv steps exit f g allocated hands regular reaches n hold
    have handed := reaches.1.holds regular rfl hold
    have origin := hands.holds (t.checked v hv) p.thisType_initialized rfl handed
    rcases origin with before | ⟨rfl, ⟨index, new⟩, here⟩
    · obtain ⟨i, index, mem, site⟩ := allocated n before
      exact ⟨i, index, List.mem_append_left _ mem, site⟩
    · cases here
      exact ⟨v.site, index, List.mem_append_right _ (List.mem_singleton_self _), rfl, new⟩

/-- No frame on a path holds the object that its own instruction is about to allocate. -/
theorem not_holds_own (p : code.Prepared r c method m initial) (t : m.Typing r initial vs)
    (path : m.Path steps x) :
    ∃ v ∈ vs, v.site = x ∧ ¬v.before.Holds (.uninitialized x.offset) := by
  generalize hk : steps.length = k
  induction k using Nat.strongRecOn generalizing steps x with
  | ind k ih =>
    obtain ⟨v, hv, rfl, allocated⟩ := p.allocated_of_holds t path
    by_cases hold : v.before.Holds (.uninitialized v.site.offset)
    · obtain ⟨i, _, mem, site, _⟩ := allocated _ hold
      obtain ⟨before, path, shorter⟩ := path.shorter mem
      obtain ⟨w, hw, rfl, free⟩ := ih _ (hk ▸ shorter) path rfl
      have same : w.site = v.site :=
        Listing.eq_of_offset_eq p.listing_eq (t.site_mem hw) (t.site_mem hv) site
      rw [same] at free
      exact ⟨w, hw, same, free⟩
    · exact ⟨v, hv, rfl, hold⟩

end Code.Prepared

variable {resolver : Resolver}

/-- In an accepted method, every path to an instruction whose frame holds an uninitialized object
has executed the allocation that the object is named by; so no instruction is ever reached with an
object in its frame that is named by the instruction itself. -/
theorem allocation_dominates (body : method.code = some code)
    (accepted : (method.verify c).run (resolver.within c) = .ok ()) :
    ∃ m initial, (code.prepare c method).run (resolver.within c) = .ok (m, initial) ∧
      ∀ steps x, m.Path steps x → ∃ f, method.framesAt resolver c x.offset = [f] ∧
        (∀ n, f.Holds (.uninitialized n) →
          ∃ i index, (i, .next) ∈ steps ∧ i.offset = n ∧ i.instruction = .new index) ∧
        ¬f.Holds (.uninitialized x.offset) := by
  obtain ⟨m, initial, vs, prepared, t, frames⟩ := Method.verify_typing body accepted
  have p := Code.prepare_ok prepared
  refine ⟨m, initial, prepared, fun steps x path => ?_⟩
  obtain ⟨v, hv, rfl, allocated⟩ := p.allocated_of_holds t path
  obtain ⟨w, hw, same, free⟩ := p.not_holds_own t path
  have frame : w.before = v.before := by
    have h := frames w hw
    rw [same, frames v hv] at h
    exact (List.cons.inj h).1.symm
  exact ⟨v.before, frames v hv, allocated, frame ▸ free⟩

/-- Creates objects for ever; the head of the loop is recorded. -/
def factoryCode : Code where
  maxStack := 1
  maxLocals := 0
  bytes := #[0xbb, 0x00, 0x02, 0xb7, 0x00, 0x06, 0xa7, 0xff, 0xfa]
  stackMap := some [0, 1, 0]

def produce : Method := ⟨0x0008, "produce", "()V", some factoryCode⟩

def factory : ClassModel where
  version := 52
  access := 0x0021
  name := "Factory"
  superclass := some ClassName.object
  methods := [produce]
  pool := .ofList [.utf8 ClassName.object, .classRef 1, .utf8 "<init>", .utf8 "()V",
    .nameAndType 3 4, .methodRef 2 5]

/-- In front of the constructor call, the new object has been allocated. -/
theorem allocation_dominates_factory :
    (produce.verify factory).run (Resolver.within (fun _ => .unknown) factory) = .ok () ∧
      ∃ m steps x f, Body.Path m steps x ∧
        produce.framesAt (fun _ => .unknown) factory x.offset = [f] ∧ f.Holds (.uninitialized 0) ∧
        ∃ i index, (i, Exit.next) ∈ steps ∧ i.offset = 0 ∧ i.instruction = .new index := by
  have accepted : (produce.verify factory).run (Resolver.within (fun _ => .unknown) factory) =
      .ok () := by decide +kernel
  have body : produce.code = some factoryCode := rfl
  obtain ⟨m, initial, prepared, dominates⟩ := allocation_dominates body accepted
  have p := Code.prepare_ok prepared
  have allocation : m.listing.at? 0 = some ⟨0, 0xbb, 3, .new 2⟩ := p.listed (by decide +kernel)
  have call : m.listing.at? 3 = some ⟨3, 0xb7, 3, .call .special 6⟩ := p.listed (by decide +kernel)
  have path : m.Path _ _ := (Body.Path.start allocation).edge (.next rfl call)
  obtain ⟨f, frame, allocated, _⟩ := dominates _ _ path
  have slots : (produce.framesAt (fun _ => .unknown) factory 3).map (·.stack.slots) =
      [[.uninitialized 0]] := by decide +kernel
  rw [frame] at slots
  have top : f.stack.slots = [.uninitialized 0] := (List.cons.inj slots).1
  have holds : f.Holds (.uninitialized 0) := .inr (top ▸ List.mem_cons_self)
  exact ⟨accepted, m, _, _, f, path, frame, holds, allocated 0 holds⟩

end ClassVerifier
