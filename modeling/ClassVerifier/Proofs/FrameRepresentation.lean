import ClassVerifier.Proofs.Positions

/-! The frames of a method keep their shape throughout its verification: the one it begins with, the
recorded ones, and those that the walk holds between instructions. -/
namespace ClassVerifier
variable {r resolver : Resolver} {c : ClassModel} {method : Method} {code : Code} {m : Body}
  {initial : Frame}

/-- The frames that the walk has in front of instructions are frames of the method, whether or not
it is accepted. -/
theorem Code.Prepared.represents_framesAt (body : method.code = some code)
    (prepared : (code.prepare c method).run (resolver.within c) = .ok (m, initial)) {b : Nat}
    {f : Frame} (h : f ∈ method.framesAt resolver c b) : m.surroundings.Represents f := by
  have p := Code.prepare_ok prepared
  obtain ⟨⟨g, op⟩, noted, he⟩ := List.mem_filterMap.1 h
  rw [Method.verify_eq body, (code.plain_prepare c method).silent.notes_bind, prepared] at noted
  obtain ⟨i, q, pending, advances, _, entered⟩ := Body.advances_of_mem_notes noted
  dsimp only at he
  split at he
  · cases he
    exact p.represents_entered (p.inStep advances) entered
  · cases he

/-- The frame that a method begins with is one of its frames, and so is every frame that is read
from a payload, whatever the bytes. Once the method's tables have passed their checks, the frame at
every position that the walk gets to is one, and so are the frames in front of its instructions. -/
theorem frames_represented (body : method.code = some code) :
    (∀ initial result listing,
      Frame.entry method (.reference c.name) code.maxLocals.toNat code.maxStack.toNat =
        .ok (initial, result) →
      let s : StackMap.Surroundings :=
        ⟨code.maxLocals.toNat, code.maxStack.toNat, listing, c.pool⟩
      s.Represents initial ∧ ∀ n bytes frames rest,
        StackMap.framesFrom s initial n #[] bytes = .ok (frames, rest) →
          ∀ f ∈ frames, s.Represents f) ∧
    ∀ m initial, (code.prepare c method).run (resolver.within c) = .ok (m, initial) →
      let s : StackMap.Surroundings :=
        ⟨code.maxLocals.toNat, code.maxStack.toNat, m.listing, c.pool⟩
      Listing.ofCode code.bytes = .ok m.listing ∧
      (∀ f ∈ m.stackMap.frames.toList, s.Represents f) ∧
      (∀ b q, m.Advances (resolver.within c) 0 ⟨initial, m.stackMap.frames.toList, false⟩ b q →
        s.Represents q.frame) ∧
      ∀ b, ∀ f ∈ method.framesAt resolver c b, s.Represents f := by
  constructor
  · intro initial result listing entry s
    have admitted : s.Admits initial := StackMap.Surroundings.admits_entry entry
    have represented : s.Represents initial := StackMap.Surroundings.represents_entry entry
    exact ⟨represented, fun n bytes frames rest h =>
      StackMap.framesFrom_represents admitted represented h⟩
  · intro m initial prepared s
    have p := Code.prepare_ok prepared
    have same : m.surroundings = s := p.surroundings_eq
    refine ⟨p.listing_eq, same ▸ p.represents_recorded, fun b q advances => ?_, fun b f hf => ?_⟩
    · exact same ▸ (p.inStep advances).represented
    · exact same ▸ Code.Prepared.represents_framesAt body prepared hf

/-- Allocates objects for ever, with a long among the locals. -/
def allocatingCode : Code where
  maxStack := 2
  maxLocals := 3
  bytes := #[0x09, 0x40, 0xbb, 0x00, 0x02, 0x57, 0xa7, 0xff, 0xfc]
  stackMap := some [0, 1, 253, 0, 2, 0, 4]

def allocating : Method := ⟨0x0008, "allocating", "()V", some allocatingCode⟩

def allocator : ClassModel where
  version := 52
  access := 0x0021
  name := "Allocator"
  superclass := some ClassName.object
  methods := [allocating]
  pool := .ofList [.utf8 "Allocator", .classRef 1]

/-- The frame behind the allocation. -/
theorem frames_represented_allocating :
    allocating.code = some allocatingCode ∧
      ∃ m initial, (allocatingCode.prepare allocator allocating).run
          (Resolver.within (fun _ => .unknown) allocator) = .ok (m, initial) ∧
        ∃ f, allocating.framesAt (fun _ => .unknown) allocator 5 = [f] ∧
          f.operands = [.uninitialized 2] ∧
          f.usedLocals = [.top, .long, .longSecond] ∧
          StackMap.Surroundings.Represents ⟨3, 2, m.listing, allocator.pool⟩ f := by
  have body : allocating.code = some allocatingCode := rfl
  have accepted : (allocating.verify allocator).run
      (Resolver.within (fun _ => .unknown) allocator) = .ok () := by decide +kernel
  have frames : (allocating.framesAt (fun _ => .unknown) allocator 5).map
      (fun f => (f.operands, f.usedLocals)) =
        [([.uninitialized 2], [.top, .long, .longSecond])] := by decide +kernel
  obtain ⟨m, initial, _, prepared, _⟩ := Method.verify_typing body accepted
  obtain ⟨f, hf, he⟩ := List.map_eq_singleton_iff.1 frames
  obtain ⟨_, _, _, represented⟩ := (frames_represented body).2 m initial prepared
  obtain ⟨operands, locals⟩ := Prod.mk.injEq .. ▸ he
  exact ⟨body, m, initial, prepared, f, hf, operands, locals,
    represented 5 f (hf ▸ List.mem_cons_self)⟩

end ClassVerifier
