import ClassVerifier.Proofs.Run
import ClassVerifier.Frame.Typed

/-! When one frame may flow into another. A slot that is not initialized flows only into a slot of
the same type or into an unusable one, so no flow brings such a slot into being. -/
namespace ClassVerifier

variable {r : Resolver}

namespace SlotType

theorem accepts_self (t : SlotType) : (t.accepts t).run r = .ok true := by
  simp [accepts]

/-- Only the same type is accepted where an uninitialized one is expected. -/
theorem eq_of_accepts {t s : SlotType} (ht : t.isUninitialized)
    (h : (t.accepts s).run r = .ok true) : s = t := by
  unfold accepts at h
  split at h
  · next he =>
    rw [Bool.or_eq_true, decide_eq_true_eq, decide_eq_true_eq] at he
    rcases he with he | rfl
    · exact he.symm
    · simp [isUninitialized] at ht
  · cases t <;> simp [isUninitialized] at ht <;> simp at h

/-- A slot of the first type may flow into one of the second. -/
def Flows (r : Resolver) (source target : SlotType) : Prop :=
  target = .top ∨ (target.accepts source).run r = .ok true

end SlotType

namespace Frame
variable {f g : Frame}

/-- The locals number as many as they should, and unused ones hold nothing. -/
structure Regular (f : Frame) : Prop where
  size_eq : f.locals.size = f.maxLocals
  used_le : f.used ≤ f.maxLocals
  unused : ∀ k t, f.used ≤ k → f.locals[k]? = some t → t = .top

/-- The type is that of some local or of some slot of the stack. -/
def Holds (f : Frame) (t : SlotType) : Prop := t ∈ f.locals ∨ t ∈ f.stack.slots

/-- The frame may flow into the target. -/
def Flows (r : Resolver) (f target : Frame) : Prop := (f.flowsInto target).run r = .ok true

private theorem allFlow_ok {pairs : List (SlotType × SlotType)} :
    (allFlow pairs).run r = .ok true ↔ ∀ p ∈ pairs, SlotType.Flows r p.1 p.2 := by
  induction pairs with
  | nil => simp [allFlow]
  | cons pair pairs ih =>
    obtain ⟨source, target⟩ := pair
    unfold allFlow
    split
    · next ht => simp [ih, SlotType.Flows, ht]
    · next ht =>
      rw [List.forall_mem_cons, ← ih, SlotType.Flows, or_iff_right ht, Check.bind_ok]
      simp

private theorem firstLocals_ok {count : Nat} {slots : List SlotType} :
    (f.firstLocals count).run r = .ok slots ↔
      count ≤ f.locals.size ∧ (f.locals.extract 0 count).toList = slots := by
  unfold firstLocals
  split <;> simp [*]

private theorem forall_mem_zip {P : SlotType → SlotType → Prop} {a b : List SlotType} :
    (∀ p ∈ a.zip b, P p.1 p.2) ↔
      ∀ (k : Nat) s t, a[k]? = some s → b[k]? = some t → P s t := by
  simp only [List.mem_iff_getElem?, List.getElem?_zip_eq_some]
  constructor
  · intro h k s t hs ht
    exact h (s, t) ⟨k, hs, ht⟩
  · rintro h ⟨s, t⟩ ⟨k, hs, ht⟩
    exact h k s t hs ht

private theorem zip_operands (h : f.stack.depth = g.stack.depth) :
    f.operands.zip g.operands = (f.stack.slots.zip g.stack.slots).reverse := by
  rw [f.stack.depth_eq, g.stack.depth_eq] at h
  exact (List.reverse_zipWith h).symm

private theorem allFlow_zip (h : f.stack.depth = g.stack.depth) :
    (allFlow ((f.locals.extract 0 g.used).toList.zip (g.locals.extract 0 g.used).toList ++
      f.operands.zip g.operands)).run r = .ok true ↔
    (∀ (k : Nat) s t, k < g.used → f.locals[k]? = some s → g.locals[k]? = some t →
      SlotType.Flows r s t) ∧
    ∀ (k : Nat) s t, f.stack.slots[k]? = some s → g.stack.slots[k]? = some t →
      SlotType.Flows r s t := by
  have at? (locals : Array SlotType) (k : Nat) :
      (locals.extract 0 g.used).toList[k]? = if k < g.used then locals[k]? else none := by
    rw [Array.getElem?_toList, Array.getElem?_extract, Nat.sub_zero, Nat.zero_add]
    by_cases hk : k < g.used
    · rw [if_pos hk]
      by_cases hs : k < locals.size
      · rw [if_pos (by omega)]
      · rw [if_neg (by omega), Array.getElem?_eq_none (by omega)]
    · rw [if_neg hk, if_neg (by omega)]
  rw [allFlow_ok, zip_operands h]
  simp only [List.mem_append, List.mem_reverse, or_imp, forall_and, forall_mem_zip, at?]
  refine and_congr_left fun _ => ⟨fun hl k s t hk hs ht => ?_, fun hl k s t hs ht => ?_⟩
  · exact hl k s t (by rw [if_pos hk, hs]) (by rw [if_pos hk, ht])
  · split at hs
    · next hk => exact hl k s t hk hs (by rwa [if_pos hk] at ht)
    · simp at hs

/-- The flow of frames, said slot by slot. -/
theorem flows_iff : f.Flows r g ↔
    (f.maxLocals = g.maxLocals ∧ f.stack.depth = g.stack.depth) ∧
      (g.used ≤ f.locals.size ∧ g.used ≤ g.locals.size) ∧
      (∀ (k : Nat) s t, k < g.used → f.locals[k]? = some s → g.locals[k]? = some t →
        SlotType.Flows r s t) ∧
      (∀ (k : Nat) s t, f.stack.slots[k]? = some s → g.stack.slots[k]? = some t →
        SlotType.Flows r s t) ∧
      (f.thisPending → g.thisPending) := by
  unfold Flows flowsInto
  split
  · next h =>
    simp only [Check.pure_ok, Bool.false_eq_true, false_iff]
    rintro ⟨⟨hl, hd⟩, _⟩
    exact h.elim (· hl) (· hd)
  · next h =>
    rw [not_or, Decidable.not_not, Decidable.not_not] at h
    have hall := allFlow_zip (r := r) (f := f) (g := g) h.2
    simp only [Check.bind_ok, firstLocals_ok]
    constructor
    · rintro ⟨_, ⟨hf, rfl⟩, _, ⟨hg, rfl⟩, all, ha, he⟩
      cases all with
      | false => simp at he
      | true =>
        simp only [if_true, Check.pure_ok] at he
        obtain ⟨hl, hs⟩ := hall.1 ha
        refine ⟨h, ⟨hf, hg⟩, hl, hs, fun hp => ?_⟩
        simpa [hp] using he
    · rintro ⟨_, ⟨hf, hg⟩, hl, hs, hp⟩
      refine ⟨_, ⟨hf, rfl⟩, _, ⟨hg, rfl⟩, true, hall.2 ⟨hl, hs⟩, ?_⟩
      cases hq : f.thisPending <;> simp_all

theorem Flows.thisPending (h : f.Flows r g) (hp : f.thisPending) : g.thisPending :=
  (flows_iff.1 h).2.2.2.2 hp

theorem Flows.refl (hf : f.Regular) : f.Flows r f := by
  have hs : f.used ≤ f.locals.size := hf.size_eq ▸ hf.used_le
  have self {s t : SlotType} (he : some s = some t) : s.Flows r t :=
    .inr (Option.some.inj he ▸ s.accepts_self)
  refine flows_iff.2 ⟨⟨rfl, rfl⟩, ⟨hs, hs⟩, ?_, ?_, fun hp => hp⟩
  · intro k s t _ hs ht
    exact self (hs.symm.trans ht)
  · intro k s t hs ht
    exact self (hs.symm.trans ht)

/-- What is not initialized in the target was there in the source. -/
theorem Flows.holds (h : f.Flows r g) (hg : g.Regular) {t : SlotType} (ht : t.isUninitialized)
    (hold : g.Holds t) : f.Holds t := by
  obtain ⟨⟨_, hd⟩, ⟨hf, _⟩, hl, hs, _⟩ := flows_iff.1 h
  have same {s : SlotType} (hst : s.Flows r t) : s = t := by
    rcases hst with rfl | hst
    · simp [SlotType.isUninitialized] at ht
    · exact SlotType.eq_of_accepts ht hst
  rcases hold with hold | hold
  · obtain ⟨k, hk⟩ := Array.mem_iff_getElem?.1 hold
    rcases Nat.lt_or_ge k g.used with hu | hu
    · have hlt : k < f.locals.size := Nat.lt_of_lt_of_le hu hf
      have hk' : f.locals[k]? = some f.locals[k] := Array.getElem?_eq_getElem hlt
      exact .inl (Array.mem_iff_getElem?.2 ⟨k, by rw [hk', same (hl k _ t hu hk' hk)]⟩)
    · cases hg.unused k t hu hk
      simp [SlotType.isUninitialized] at ht
  · obtain ⟨k, hk⟩ := List.mem_iff_getElem?.1 hold
    have hlt : k < f.stack.slots.length := by
      rw [← f.stack.depth_eq, hd, g.stack.depth_eq]
      exact (List.getElem?_eq_some_iff.1 hk).1
    have hk' : f.stack.slots[k]? = some f.stack.slots[k] := List.getElem?_eq_getElem hlt
    exact .inr (List.mem_iff_getElem?.2 ⟨k, by rw [hk', same (hs k _ t hk' hk)]⟩)

/-- The same locals, stack and receiver, at whatever offsets the frames stand. -/
structure Agrees (f g : Frame) : Prop where
  used_eq : f.used = g.used
  maxLocals_eq : f.maxLocals = g.maxLocals
  locals_eq : f.locals = g.locals
  stack_eq : f.stack = g.stack
  thisPending_eq : f.thisPending = g.thisPending

namespace Agrees

theorem refl (f : Frame) : f.Agrees f := ⟨rfl, rfl, rfl, rfl, rfl⟩

theorem at_offset (f : Frame) (offset : Nat) : { f with offset }.Agrees f :=
  ⟨rfl, rfl, rfl, rfl, rfl⟩

/-- Where a recorded frame takes over, everything is as it was recorded. -/
theorem adopt {recorded : Frame} (h : f.maxLocals = recorded.maxLocals) :
    (f.adopt recorded).Agrees recorded := ⟨rfl, h, rfl, rfl, rfl⟩

theorem flows_iff {f' g' : Frame} (hf : f.Agrees f') (hg : g.Agrees g') :
    f.Flows r g ↔ f'.Flows r g' := by
  simp only [Frame.flows_iff, hf.maxLocals_eq, hf.locals_eq, hf.stack_eq,
    hf.thisPending_eq, hg.used_eq, hg.maxLocals_eq, hg.locals_eq, hg.stack_eq, hg.thisPending_eq]

theorem regular (h : f.Agrees g) (hg : g.Regular) : f.Regular := by
  obtain ⟨size, used, unused⟩ := hg
  rw [← h.locals_eq, ← h.maxLocals_eq] at size
  rw [← h.used_eq, ← h.maxLocals_eq] at used
  rw [← h.locals_eq, ← h.used_eq] at unused
  exact ⟨size, used, unused⟩

theorem holds_iff (h : f.Agrees g) {t : SlotType} : f.Holds t ↔ g.Holds t := by
  rw [Holds, Holds, h.locals_eq, h.stack_eq]

end Agrees
end Frame
end ClassVerifier
