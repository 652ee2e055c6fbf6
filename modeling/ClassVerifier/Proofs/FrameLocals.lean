import ClassVerifier.Proofs.FrameFlow
import ClassVerifier.Proofs.StackMoves

/-! What reading and writing locals does to a frame. A read changes nothing, and a write leaves no
type behind that was not there before or written. -/
namespace ClassVerifier.Frame
variable {r : Resolver} {f g : Frame} {t : SlotType}

private theorem localAt_ok {index : Nat} :
    (f.localAt index).run r = .ok t ↔ f.locals[index]? = some t := by
  unfold localAt
  split <;> simp [*]

theorem expectLocal_ok {index : Nat} {expected : SlotType} :
    (f.expectLocal index expected).run r = .ok t ↔
      f.locals[index]? = some t ∧ (expected.accepts t).run r = .ok true := by
  rw [expectLocal, Check.bind_ok]
  constructor
  · rintro ⟨actual, ha, h⟩
    obtain ⟨accepted, hc, h⟩ := Check.bind_ok.1 h
    cases accepted with
    | false => simp at h
    | true =>
      cases Check.pure_ok.1 h
      exact ⟨localAt_ok.1 ha, hc⟩
  · rintro ⟨ht, hc⟩
    exact ⟨t, localAt_ok.2 ht, Check.bind_ok.2 ⟨true, hc, rfl⟩⟩

/-- What a read demands, and all that it changes. -/
theorem load_ok_iff {index : Nat} {expected : SlotType} :
    (f.load index expected).run r = .ok (t, g) ↔ index < f.maxLocals ∧
      (f.locals[index]? = some t ∧ (expected.accepts t).run r = .ok true) ∧
      g = { f with used := max f.used (index + 1) } := by
  unfold load
  by_cases beyond : f.maxLocals ≤ index
  · simp [beyond, Nat.not_lt.2 beyond]
  · rw [if_neg beyond, Check.bind_ok]
    simp only [expectLocal_ok, Check.pure_ok, Prod.mk.injEq]
    constructor
    · rintro ⟨_, read, rfl, rfl⟩
      exact ⟨Nat.lt_of_not_le beyond, read, rfl⟩
    · rintro ⟨_, read, rfl⟩
      exact ⟨t, read, rfl, rfl⟩

/-- A local of a real type is in use already, so reading it changes nothing. -/
theorem load_ok {index : Nat} {expected : SlotType} (hf : f.Regular)
    (htop : (expected.accepts .top).run r ≠ .ok true)
    (h : (f.load index expected).run r = .ok (t, g)) :
    g = f ∧ f.locals[index]? = some t ∧ (expected.accepts t).run r = .ok true := by
  obtain ⟨_, ⟨hl, hc⟩, rfl⟩ := load_ok_iff.1 h
  refine ⟨?_, hl, hc⟩
  rcases Nat.lt_or_ge index f.used with hu | hu
  · rw [Nat.max_eq_left hu]
  · cases hf.unused index _ hu hl
    exact absurd hc htop

/-- What a read of two slots demands. -/
theorem loadPair_ok_iff {index : Nat} {first second : SlotType} {u : Unit} :
    (f.loadPair index first second).run r = .ok u ↔ index + 1 < f.used ∧
      (∃ s, f.locals[index]? = some s ∧ (first.accepts s).run r = .ok true) ∧
      ∃ t, f.locals[index + 1]? = some t ∧ (second.accepts t).run r = .ok true := by
  unfold loadPair
  by_cases beyond : f.used ≤ index + 1
  · simp [beyond, Nat.not_lt.2 beyond]
  · rw [if_neg beyond, Check.bind_ok]
    simp only [expectLocal_ok, Check.bind_ok]
    constructor
    · rintro ⟨s, hs, t, ht, _⟩
      exact ⟨Nat.lt_of_not_le beyond, ⟨s, hs⟩, t, ht⟩
    · rintro ⟨_, ⟨s, hs⟩, t, ht⟩
      exact ⟨s, hs, t, ht, rfl⟩

private theorem writeAll_size (index : Nat) (types : List (SlotType × Nat))
    (locals : Array SlotType) :
    (types.foldl (fun locals (t, i) => locals.setIfInBounds (index + i) t) locals).size =
      locals.size := by
  induction types generalizing locals with
  | nil => rfl
  | cons p types ih => simp [ih]

private theorem mem_writeAll {index : Nat} {types : List (SlotType × Nat)}
    {locals : Array SlotType}
    (h : t ∈ types.foldl (fun locals (t, i) => locals.setIfInBounds (index + i) t) locals) :
    t ∈ locals ∨ t ∈ types.map Prod.fst := by
  induction types generalizing locals with
  | nil => exact .inl h
  | cons p types ih =>
    rcases ih h with h | h
    · rcases Array.mem_or_eq_of_mem_setIfInBounds h with h | rfl
      · exact .inl h
      · exact .inr (by simp)
    · exact .inr (List.mem_cons_of_mem _ h)

private theorem getElem?_writeAll {index k : Nat} {types : List (SlotType × Nat)}
    (hk : ∀ p ∈ types, index + p.2 ≠ k) (locals : Array SlotType) :
    (types.foldl (fun locals (t, i) => locals.setIfInBounds (index + i) t) locals)[k]? =
      locals[k]? := by
  induction types generalizing locals with
  | nil => rfl
  | cons p types ih =>
    rw [List.foldl_cons, ih fun q hq => hk q (List.mem_cons_of_mem _ hq)]
    exact Array.getElem?_setIfInBounds_ne (hk p List.mem_cons_self)

private theorem getElem?_clear {p : Prop} [Decidable p] {locals : Array SlotType} {j k : Nat}
    (h : (if p then locals.setIfInBounds j .top else locals)[k]? = some t) :
    t = .top ∨ locals[k]? = some t := by
  split at h
  · rw [Array.getElem?_setIfInBounds] at h
    split at h
    · split at h
      · exact .inl (Option.some.inj h).symm
      · simp at h
    · exact .inr h
  · exact .inr h

theorem overwrite_size (locals : Array SlotType) (index : Nat) (types : List SlotType) :
    (overwrite locals index types).size = locals.size := by
  simp only [overwrite, writeAll_size]
  split <;> split <;> simp

/-- Behind the written slots the locals keep their types or become unusable. -/
theorem getElem?_overwrite {locals : Array SlotType} {index k : Nat} {types : List SlotType}
    (hk : index + types.length ≤ k) (h : (overwrite locals index types)[k]? = some t) :
    t = .top ∨ locals[k]? = some t := by
  have hz (p) (hp : p ∈ types.zipIdx) : index + p.2 ≠ k := by
    have := List.snd_lt_of_mem_zipIdx hp
    omega
  rw [overwrite, getElem?_writeAll hz] at h
  rcases getElem?_clear h with h | h
  · exact .inl h
  · exact getElem?_clear h

theorem mem_overwrite {locals : Array SlotType} {index : Nat} {types : List SlotType}
    (h : t ∈ overwrite locals index types) : t ∈ locals ∨ t ∈ types ∨ t = .top := by
  rcases mem_writeAll h with h | h
  · obtain ⟨k, h⟩ := Array.mem_iff_getElem?.1 h
    rcases getElem?_clear h with h | h
    · exact .inr (.inr h)
    · rcases getElem?_clear h with h | h
      · exact .inr (.inr h)
      · exact .inl (Array.mem_iff_getElem?.2 ⟨k, h⟩)
  · exact .inr (.inl (by simpa using h))

/-- Writing what is there already changes nothing, if it takes one slot. -/
theorem overwrite_self {locals : Array SlotType} {index : Nat} (h : locals[index]? = some t)
    (hfirst : t.isFirst = false) (hsecond : t.isSecond = false) :
    overwrite locals index [t] = locals := by
  have hd : locals.getD index .top = t := by
    rw [Array.getD_eq_getD_getElem?, h, Option.getD_some]
  simp only [overwrite, List.length_singleton, Nat.add_sub_cancel, hd, hfirst, hsecond,
    Bool.false_and, Bool.false_eq_true, if_false]
  apply Array.ext_getElem?
  intro k
  change (locals.setIfInBounds index t)[k]? = locals[k]?
  rw [Array.getElem?_setIfInBounds]
  split
  · next he => rw [← he, h, if_pos (Array.getElem?_eq_some_iff.1 h).1]
  · rfl

/-- What a write demands, and all that it changes. -/
theorem store_ok_iff {index : Nat} {type : SlotType} :
    (f.store index type).run r = .ok g ↔ index + type.slots.length ≤ f.maxLocals ∧
      index + type.slots.length ≤ f.locals.size ∧ g = { f with
        locals := overwrite f.locals index type.slots
        used := max f.used (index + type.slots.length) } := by
  unfold store
  dsimp only
  by_cases beyond : f.maxLocals < index + type.slots.length
  · simp [beyond, Nat.not_le.2 beyond]
  · by_cases missing : f.locals.size < index + type.slots.length
    · simp [beyond, missing, Nat.not_le.2 missing]
    · rw [if_neg beyond, if_neg missing, Check.pure_ok]
      simp only [Nat.le_of_not_lt beyond, Nat.le_of_not_lt missing, true_and, eq_comm]

/-- A successful store writes the slots of the type, and nothing else can go wrong. -/
theorem store_ok {index : Nat} {type : SlotType} (h : (f.store index type).run r = .ok g) :
    index + type.slots.length ≤ f.maxLocals ∧
      g = { f with
        locals := overwrite f.locals index type.slots
        used := max f.used (index + type.slots.length) } :=
  have ⟨room, _, written⟩ := store_ok_iff.1 h
  ⟨room, written⟩

/-- Where there is room for the slots of a type, they are written. -/
theorem Regular.store_of_room {index : Nat} {type : SlotType} (hf : f.Regular)
    (room : index + type.slots.length ≤ f.maxLocals) :
    (f.store index type).run r = .ok { f with
      locals := overwrite f.locals index type.slots
      used := max f.used (index + type.slots.length) } :=
  store_ok_iff.2 ⟨room, hf.size_eq ▸ room, rfl⟩

theorem Moves.regular {popped pushed : List SlotType} (m : f.Moves popped pushed g)
    (hf : f.Regular) : g.Regular := by
  rw [m.same]
  exact ⟨hf.size_eq, hf.used_le, hf.unused⟩

theorem Moves.holds {popped pushed : List SlotType} (m : f.Moves popped pushed g)
    (h : g.Holds t) : t ∈ pushed ∨ f.Holds t := by
  rcases h with h | h
  · exact .inr (.inl (m.locals_eq ▸ h))
  · exact (m.mem_stack h).imp_right .inr

theorem Regular.store {index : Nat} {type : SlotType} (hf : f.Regular)
    (h : (f.store index type).run r = .ok g) : g.Regular := by
  obtain ⟨hle, rfl⟩ := store_ok h
  refine ⟨(overwrite_size _ _ _).trans hf.size_eq, Nat.max_le.2 ⟨hf.used_le, hle⟩, ?_⟩
  intro k t hk ht
  have ⟨hu, hs⟩ := Nat.max_le.1 hk
  rcases getElem?_overwrite hs ht with rfl | ht
  · rfl
  · exact hf.unused k t hu ht

theorem holds_store {index : Nat} {type : SlotType} (ht : t.isUninitialized)
    (h : (f.store index type).run r = .ok g) (hold : g.Holds t) : f.Holds t ∨ t = type := by
  obtain ⟨_, rfl⟩ := store_ok h
  rcases hold with hold | hold
  · rcases mem_overwrite hold with hold | hold | rfl
    · exact .inl (.inl hold)
    · refine .inr ((List.mem_cons.1 hold).resolve_right fun hold => ?_)
      cases type <;> simp [SlotType.second?] at hold <;> subst hold <;>
        simp [SlotType.isUninitialized] at ht
    · simp [SlotType.isUninitialized] at ht
  · exact .inl (.inr hold)

theorem Regular.replaceAll {old new : SlotType} (hf : f.Regular) (hold : old ≠ .top) :
    (f.replaceAll old new).Regular := by
  refine ⟨Array.size_map.trans hf.size_eq, hf.used_le, fun k t hk ht => ?_⟩
  obtain ⟨s, hs, rfl⟩ := Option.map_eq_some_iff.1 (Array.getElem?_map ▸ ht)
  cases hf.unused k s hk hs
  exact if_neg hold.symm

theorem holds_replaceAll {old new : SlotType} (h : (f.replaceAll old new).Holds t) :
    t = new ∨ f.Holds t ∧ t ≠ old := by
  have swap {s : SlotType} (hs : f.Holds s) (he : (if s = old then new else s) = t) :
      t = new ∨ f.Holds t ∧ t ≠ old := by
    split at he
    · exact .inl he.symm
    · next hn => exact .inr ⟨he ▸ hs, he ▸ hn⟩
  rcases h with h | h
  · obtain ⟨s, hs, he⟩ := Array.mem_map.1 h
    exact swap (.inl hs) he
  · obtain ⟨s, hs, he⟩ := List.mem_map.1 h
    exact swap (.inr hs) he

end ClassVerifier.Frame
