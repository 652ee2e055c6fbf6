import ClassVerifier.Proofs.Members

/-! The three kinds of effect that a successful instruction can have: it moves slots of the stack,
it writes a local, or it is a constructor call. What frames keep from one instruction to the next
is proved from these alone. -/
namespace ClassVerifier

/-- The instruction that follows may come next. -/
def Instruction.continues : Instruction → Bool
  | .jump _ | .subroutine .. | .switch _ | .returnValue _ | .returnVoid | .throw => false
  | _ => true

namespace Body
open ClassVerifier.Frame
variable {r : Resolver} {m : Body} {i : Instruction} {f g : Frame} {flow : Flow}

inductive Effect (r : Resolver) (m : Body) (i : Instruction) (f : Frame) : Flow → Frame → Prop
  /-- Only the stack changes; an uninitialized slot is a copy, or comes from an allocation here. -/
  | moves {popped pushed : List SlotType} {flow : Flow} {g : Frame} (h : f.Moves popped pushed g)
      (leaves : flow ≠ .initialized) (continues : flow.continues = i.continues)
      (ordinary : ∀ owner receiver, ¬m.Constructs i f owner receiver)
      (origin : ∀ t ∈ pushed, t.isUninitialized →
        f.Holds t ∨ (∃ index, i = .new index) ∧ t = .uninitialized f.offset) :
      Effect r m i f flow g
  /-- A slot goes from the stack to the locals. -/
  | writes {kind : ValueKind} {index : UInt16} {popped : List SlotType} {type : SlotType}
      {f' g : Frame} (is : i = .store kind index) (h : f.Moves popped [] f')
      (stored : (f'.store index.toNat type).run r = .ok g)
      (held : type.isUninitialized → f.Holds type) :
      Effect r m i f .next g
  /-- A receiver becomes an object. -/
  | constructs {owner : String} {receiver object : SlotType} {popped : List SlotType}
      {flow : Flow} {f' : Frame} (called : m.Constructs i f owner receiver)
      (how : Constructing r m owner f receiver flow object) (h : f.Moves popped [] f') :
      Effect r m i f flow (f'.replaceAll receiver object)

theorem completes_ok {x : Check Frame} {flow' : Flow} :
    (x >>= fun g => pure (flow', g)).run r = .ok (flow, g) ↔ flow = flow' ∧ x.run r = .ok g := by
  simp only [Check.bind_ok, Check.pure_ok, Prod.mk.injEq]
  constructor
  · rintro ⟨g', hx, rfl, rfl⟩
    exact ⟨rfl, hx⟩
  · rintro ⟨rfl, hx⟩
    exact ⟨g, hx, rfl, rfl⟩

private theorem not_constructs (hi : ∀ kind index, i ≠ .call kind index) (owner : String)
    (receiver : SlotType) : ¬m.Constructs i f owner receiver := by
  rintro ⟨index, _, _, rfl, _⟩
  exact hi .special index rfl

/-- An effect that puts on only what is initialized. -/
private theorem Effect.plain (h : ∃ popped pushed, AllInitialized pushed ∧ f.Moves popped pushed g)
    (leaves : flow ≠ .initialized) (continues : flow.continues = i.continues)
    (hi : ∀ kind index, i ≠ .call kind index) : Effect r m i f flow g := by
  obtain ⟨popped, pushed, initialized, h⟩ := h
  refine .moves h leaves continues (not_constructs hi) fun t ht hu => ?_
  rw [initialized t ht] at hu
  cases hu

/-- An effect that puts on only what the frame held before. -/
private theorem Effect.copies {popped pushed : List SlotType} (h : f.Moves popped pushed g)
    (held : ∀ t ∈ pushed, f.Holds t) (continues : i.continues)
    (hi : ∀ kind index, i ≠ .call kind index) : Effect r m i f .next g :=
  .moves h nofun continues.symm (not_constructs hi) fun t ht _ => .inl (held t ht)

private theorem Effect.load {kind : ValueKind} {index : UInt16} (hf : f.Regular)
    (h : (Body.load kind index.toNat f).run r = .ok g) :
    Effect r m (.load kind index) f .next g := by
  cases kind with
  | number number =>
    obtain ⟨_, _, _, hm⟩ := load_number hf h
    exact .plain ⟨[], _, (AllInitialized.number number).reverse, hm⟩ nofun rfl nofun
  | reference =>
    obtain ⟨t, ht, _, hm⟩ := load_reference hf h
    refine .copies hm (fun s hs => ?_) rfl nofun
    rw [List.mem_singleton.1 hs]
    exact .inl (Array.mem_of_getElem? ht)

private theorem Effect.store {kind : ValueKind} {index : UInt16}
    (h : (Body.store kind index.toNat f).run r = .ok g) :
    Effect r m (.store kind index) f .next g := by
  cases kind with
  | number number =>
    obtain ⟨popped, f', _, hm, hs⟩ := store_number h
    refine .writes rfl hm hs fun hu => ?_
    cases number <;> cases hu
  | reference =>
    obtain ⟨t, f', _, hm, hs⟩ := store_reference h
    exact .writes rfl hm hs fun _ => .inr (hm.mem_popped (List.mem_singleton_self t))

private theorem Effect.call {kind : CallKind} {index : UInt16}
    (h : (m.call kind index f).run r = .ok (flow, g)) :
    Effect r m (.call kind index) f flow g := by
  rcases call_ok h with ⟨hn, rfl, popped, pushed, hi, hm⟩ | ⟨_, _, _, _, _, called, how, hm, rfl⟩
  · refine .moves hm nofun rfl ?_ fun t ht hu => ?_
    · rintro owner receiver ⟨_, _, _, he, hname, _⟩
      cases he
      exact hn hname
    · rw [hi t ht] at hu
      cases hu
  · exact .constructs called how hm

/-- The effect of every instruction is of one of the three kinds. -/
theorem effect_ok (hf : f.Regular) (h : (m.effect i f).run r = .ok (flow, g)) :
    Effect r m i f flow g := by
  cases i with
  | nop =>
    cases Check.pure_ok.1 h
    exact .copies (.refl f) nofun rfl nofun
  | const kind =>
    cases kind with
    | number number =>
      obtain ⟨rfl, hg⟩ := completes_ok.1 h
      have hm := pushAll_moves (Check.lift_ok.1 hg)
      exact .plain ⟨[], _, (AllInitialized.number number).reverse, hm⟩ nofun rfl nofun
    | reference =>
      obtain ⟨rfl, hg⟩ := completes_ok.1 h
      exact .plain ⟨[], _, .singleton rfl, push_moves (Check.lift_ok.1 hg)⟩ nofun rfl nofun
  | loadConstant index =>
    obtain ⟨rfl, hg⟩ := completes_ok.1 h
    exact .plain ⟨[], loadConstant_moves (Check.lift_ok.1 hg)⟩ nofun rfl nofun
  | loadWideConstant index =>
    obtain ⟨rfl, hg⟩ := completes_ok.1 h
    exact .plain ⟨[], loadConstant_moves (Check.lift_ok.1 hg)⟩ nofun rfl nofun
  | load kind index =>
    obtain ⟨rfl, hg⟩ := completes_ok.1 h
    exact .load hf hg
  | store kind index =>
    obtain ⟨rfl, hg⟩ := completes_ok.1 h
    exact .store hg
  | increment index =>
    obtain ⟨rfl, hg⟩ := completes_ok.1 h
    obtain rfl := increment_ok hf hg
    exact .copies (.refl g) nofun rfl nofun
  | arrayLoad kind =>
    obtain ⟨rfl, hg⟩ := completes_ok.1 h
    obtain ⟨index, array, pushed, _, _, hi, hm⟩ := arrayLoad_moves hg
    exact .plain ⟨_, pushed, hi, hm⟩ nofun rfl nofun
  | arrayStore kind =>
    obtain ⟨rfl, hg⟩ := completes_ok.1 h
    obtain ⟨elements, index, array, _, _, _, hm⟩ := arrayStore_moves hg
    exact .copies hm nofun rfl nofun
  | discard count =>
    obtain ⟨⟨popped, f'⟩, hp, h⟩ := Check.bind_ok.1 h
    cases Check.pure_ok.1 h
    exact .copies (popSlots_moves hp) nofun rfl nofun
  | duplicate count under =>
    obtain ⟨rfl, hg⟩ := completes_ok.1 h
    obtain ⟨upper, lower, hm⟩ := duplicate_moves hg
    refine .copies hm (fun t ht => .inr (hm.mem_popped ?_)) rfl nofun
    rcases List.mem_append.1 ht with ht | ht
    · exact ht
    · exact List.mem_append_left _ ht
  | swap =>
    obtain ⟨rfl, hg⟩ := completes_ok.1 h
    obtain ⟨upper, lower, hm⟩ := swap_moves hg
    exact .copies hm (fun t ht => .inr (hm.mem_popped (List.mem_reverse.1 ht))) rfl nofun
  | compute operands result =>
    obtain ⟨f', hp, h⟩ := Check.bind_ok.1 h
    obtain ⟨rfl, hg⟩ := completes_ok.1 h
    obtain ⟨popped, _, hm⟩ := popAll_moves hp
    have hm := hm.push (pushAll_moves (Check.lift_ok.1 hg))
    rw [List.append_nil] at hm
    exact .plain ⟨_, _, (AllInitialized.number result).reverse, hm⟩ nofun rfl nofun
  | branch test target =>
    obtain ⟨rfl, hg⟩ := completes_ok.1 h
    obtain ⟨popped, _, hm⟩ := popAll_moves hg
    exact .copies hm nofun rfl nofun
  | jump target =>
    cases Check.pure_ok.1 h
    exact .plain ⟨[], [], .nil, .refl f⟩ nofun rfl nofun
  | subroutine opcode widened =>
    cases widened <;> exact (Check.reject_ok.1 h).elim
  | switch table =>
    obtain ⟨rfl, hg⟩ := completes_ok.1 h
    obtain ⟨popped, _, hm⟩ := checkSwitch_moves hg
    exact .plain ⟨popped, [], .nil, hm⟩ nofun rfl nofun
  | returnValue kind =>
    obtain ⟨rfl, hg⟩ := completes_ok.1 h
    obtain ⟨popped, hm⟩ := returnValue_moves hg
    exact .plain ⟨popped, [], .nil, hm⟩ nofun rfl nofun
  | returnVoid =>
    obtain ⟨rfl, hg⟩ := completes_ok.1 h
    obtain ⟨rfl, _⟩ := returnVoid_ok (Check.lift_ok.1 hg)
    exact .plain ⟨[], [], .nil, .refl g⟩ nofun rfl nofun
  | field access index =>
    obtain ⟨rfl, hg⟩ := completes_ok.1 h
    exact .plain (accessField_moves hg) nofun rfl nofun
  | call kind index => exact .call h
  | new index =>
    obtain ⟨rfl, hg⟩ := completes_ok.1 h
    have hm := allocate_moves (Check.lift_ok.1 hg)
    refine .moves hm nofun rfl (not_constructs nofun) fun t ht _ => .inr ⟨⟨index, rfl⟩, ?_⟩
    exact List.mem_singleton.1 ht
  | newArray code =>
    obtain ⟨rfl, hg⟩ := completes_ok.1 h
    obtain ⟨name, popped, _, hm⟩ := newArray_moves hg
    exact .plain ⟨popped, _, .singleton rfl, hm⟩ nofun rfl nofun
  | newReferenceArray index =>
    obtain ⟨rfl, hg⟩ := completes_ok.1 h
    obtain ⟨name, popped, _, hm⟩ := newReferenceArray_moves hg
    exact .plain ⟨popped, _, .singleton rfl, hm⟩ nofun rfl nofun
  | newMultiArray index dimensions =>
    obtain ⟨rfl, hg⟩ := completes_ok.1 h
    obtain ⟨name, popped, _, hm⟩ := newMultiArray_moves hg
    exact .plain ⟨popped, _, .singleton rfl, hm⟩ nofun rfl nofun
  | arrayLength =>
    obtain ⟨rfl, hg⟩ := completes_ok.1 h
    obtain ⟨array, _, _, hm⟩ := arrayLength_moves hg
    exact .plain ⟨[array], _, .singleton rfl, hm⟩ nofun rfl nofun
  | throw =>
    obtain ⟨rfl, hg⟩ := completes_ok.1 h
    obtain ⟨popped, _, hm⟩ := popAll_moves hg
    exact .plain ⟨popped, [], .nil, hm⟩ nofun rfl nofun
  | cast index =>
    obtain ⟨rfl, hg⟩ := completes_ok.1 h
    obtain ⟨name, popped, _, hm⟩ := testObject_moves hg
    exact .plain ⟨popped, _, .singleton rfl, hm⟩ nofun rfl nofun
  | isInstance index =>
    obtain ⟨rfl, hg⟩ := completes_ok.1 h
    obtain ⟨name, popped, _, hm⟩ := testObject_moves hg
    exact .plain ⟨popped, _, .singleton rfl, hm⟩ nofun rfl nofun
  | monitor =>
    obtain ⟨rfl, hg⟩ := completes_ok.1 h
    obtain ⟨popped, _, hm⟩ := popAll_moves hg
    exact .copies hm nofun rfl nofun

private theorem Constructing.uninitialized {owner : String} {receiver object : SlotType}
    (h : Constructing r m owner f receiver flow object) : receiver.isUninitialized := by
  cases h <;> rfl

namespace Effect

theorem offset_eq (e : Effect r m i f flow g) : g.offset = f.offset := by
  cases e with
  | moves h => exact h.offset_eq
  | writes is h stored =>
    rw [(store_ok stored).2]
    exact h.offset_eq
  | constructs called how h => exact h.offset_eq

theorem maxLocals_eq (e : Effect r m i f flow g) : g.maxLocals = f.maxLocals := by
  cases e with
  | moves h => exact h.maxLocals_eq
  | writes is h stored =>
    rw [(store_ok stored).2]
    exact h.maxLocals_eq
  | constructs called how h => exact h.maxLocals_eq

theorem regular (e : Effect r m i f flow g) (hf : f.Regular) : g.Regular := by
  cases e with
  | moves h => exact h.regular hf
  | writes is h stored => exact (h.regular hf).store stored
  | constructs called how h =>
    apply (h.regular hf).replaceAll
    rintro rfl
    exact absurd how.uninitialized nofun

theorem continues_eq (e : Effect r m i f flow g) : flow.continues = i.continues := by
  cases e with
  | moves h leaves continues => exact continues
  | writes is => exact is ▸ rfl
  | constructs called how =>
    obtain ⟨_, _, _, rfl, _⟩ := called
    cases how <;> rfl

/-- An uninitialized slot was there before, unless it is allocated right here. -/
theorem holds (e : Effect r m i f flow g) (this : m.thisType.isUninitialized = false)
    {t : SlotType} (ht : t.isUninitialized) (hold : g.Holds t) :
    f.Holds t ∨ (∃ index, i = .new index) ∧ t = .uninitialized f.offset := by
  cases e with
  | moves h leaves continues ordinary origin =>
    rcases h.holds hold with hp | hf
    · exact origin t hp ht
    · exact .inl hf
  | writes is h stored held =>
    rcases holds_store ht stored hold with hf | rfl
    · exact .inl ((h.holds hf).resolve_left nofun)
    · exact .inl (held ht)
  | constructs called how h =>
    rcases holds_replaceAll hold with rfl | ⟨hf, _⟩
    · cases how with
      | this => rw [this] at ht; cases ht
      | created => cases ht
    · exact .inl ((h.holds hf).resolve_left nofun)

/-- Only the call that initializes the receiver changes whether it is pending. -/
theorem thisPending_eq (e : Effect r m i f flow g) (hn : flow ≠ .initialized) :
    g.thisPending = f.thisPending := by
  cases e with
  | moves h => exact h.thisPending_eq
  | writes is h stored =>
    rw [(store_ok stored).2]
    exact h.thisPending_eq
  | constructs called how h' =>
    cases how with
    | this => exact absurd rfl hn
    | created => exact (Bool.and_true _).trans h'.thisPending_eq

/-- Where control leaves an instruction with the receiver initialized, the instruction called a
constructor of this class or of its superclass on it, and nothing of it is left. -/
theorem settles (e : Effect r m i f .initialized g) (this : m.thisType.isUninitialized = false) :
    (∃ owner, m.Constructs i f owner .uninitializedThis ∧
      (owner = m.owner.name ∨ m.owner.superclass = some owner)) ∧
    g.thisPending = false ∧ ¬g.Holds .uninitializedThis := by
  cases e with
  | moves h leaves => exact absurd rfl leaves
  | constructs called how h =>
    cases how with
    | this near =>
      refine ⟨⟨_, called, near⟩, Bool.and_false _, fun hold => ?_⟩
      rcases holds_replaceAll hold with he | ⟨_, hn⟩
      · rw [← he] at this
        cases this
      · exact hn rfl

/-- No other way leads on from such a call. -/
theorem eq_initialized {owner : String} (e : Effect r m i f flow g)
    (h : m.Constructs i f owner .uninitializedThis) : flow = .initialized := by
  cases e with
  | moves _ _ _ ordinary => exact absurd h (ordinary _ _)
  | writes is =>
    obtain ⟨_, _, _, he, _⟩ := h
    cases is.symm.trans he
  | constructs called how =>
    cases called.receiver_eq h
    cases how
    rfl

end Effect
end Body
end ClassVerifier
