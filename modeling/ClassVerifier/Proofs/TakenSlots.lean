import ClassVerifier.Proofs.StackMoves

/-! How many slots of the stack an operation takes off. It is as many as it needs at least: with
fewer the stack runs out, and with no more than these it succeeds as well, whatever lay below. -/
namespace ClassVerifier.Frame
variable {α β : Type} {r : Resolver} {f g h : Frame} {popped : List SlotType}

/-- Only the top slots are left on the stack. -/
def keep (f : Frame) (n : Nat) : Frame := { f with stack := .ofSlots (f.stack.slots.take n) }

/-- What becomes of a check that finds no further slot on the stack. -/
abbrev runsOut : Except Fault α := .error (.rejected none .stackUnderflow)

/-- The check takes these slots off and goes on with another frame, whatever lies below them; its
result is made from that frame. -/
structure Pops (r : Resolver) (x : Frame → Check α) (f : Frame) (popped : List SlotType)
    (g : Frame) (result : Frame → α) : Prop where
  stack : f.stack.slots = popped ++ g.stack.slots
  enough : ∀ n, (x (f.keep (popped.length + n))).run r = .ok (result (g.keep n))
  short : ∀ n < popped.length, (x (f.keep n)).run r = runsOut

namespace Pops
variable {x : Frame → Check α} {y : α → Check β} {result : Frame → α} {other : Frame → β}

/-- Taking off more slots. -/
theorem bind {p q : List SlotType} (hx : Pops r x f p g result)
    (hy : Pops r (fun g => y (result g)) g q h other) :
    Pops r (fun f => x f >>= y) f (p ++ q) h other where
  stack := by rw [hx.stack, hy.stack, List.append_assoc]
  enough n := by
    rw [List.length_append, Nat.add_assoc, Check.run_bind_of_ok (hx.enough _)]
    exact hy.enough n
  short n hn := by
    rw [Check.bind_error]
    rcases Nat.lt_or_ge n p.length with few | enough
    · exact .inl (hx.short n few)
    · rw [List.length_append] at hn
      obtain ⟨k, rfl⟩ := Nat.exists_eq_add_of_le enough
      exact .inr ⟨_, hx.enough k, hy.short k (by omega)⟩

/-- Nothing more is taken off in the end. -/
theorem map {p : List SlotType} (hx : Pops r x f p g result)
    (hy : ∀ n, (y (result (g.keep n))).run r = .ok (other (g.keep n))) :
    Pops r (fun f => x f >>= y) f p g other where
  stack := hx.stack
  enough n := by
    rw [Check.run_bind_of_ok (hx.enough n)]
    exact hy n
  short n hn := Check.bind_error.2 (.inl (hx.short n hn))

theorem nil (hx : ∀ n, (x (f.keep n)).run r = .ok (result (f.keep n))) :
    Pops r x f [] f result where
  stack := rfl
  enough n := by
    rw [List.length_nil, Nat.zero_add]
    exact hx n
  short := nofun

end Pops

private theorem pop?_keep {t : SlotType} (m : f.Moves [t] [] g) (n : Nat) :
    ∃ rest, (f.keep ([t].length + n)).stack.pop? = some (t, rest) ∧
      { f.keep ([t].length + n) with stack := rest } = g.keep n := by
  obtain ⟨below, hf, hg⟩ := m.stack
  refine ⟨(g.keep n).stack, ?_, ?_⟩
  · rw [List.length_singleton, Nat.add_comm, keep, hf, keep, hg]
    rfl
  · rw [keep, keep, m.same]

theorem pop_pops {t : SlotType} (hp : f.pop = .ok (t, g)) :
    Pops r (fun f => liftM f.pop) f [t] g fun g => (t, g) := by
  have m := pop_moves hp
  obtain ⟨below, hf, hg⟩ := m.stack
  refine ⟨by rw [hf, hg]; rfl, fun n => ?_, fun n hn => ?_⟩
  · obtain ⟨rest, found, same⟩ := pop?_keep m n
    rw [Check.lift_ok, pop, found, ← same]
  · obtain rfl : n = 0 := by simpa using hn
    rfl

theorem popExpected_pops {expected t : SlotType}
    (hp : (f.popExpected expected).run r = .ok (t, g)) :
    Pops r (fun f => f.popExpected expected) f [t] g fun g => (t, g) := by
  obtain ⟨accepted, m⟩ := popExpected_moves hp
  obtain ⟨below, hf, hg⟩ := m.stack
  refine ⟨by rw [hf, hg]; rfl, fun n => ?_, fun n hn => ?_⟩
  · obtain ⟨rest, found, same⟩ := pop?_keep m n
    rw [popExpected, found, ← same]
    exact Check.bind_ok.2 ⟨true, accepted, rfl⟩
  · obtain rfl : n = 0 := by simpa using hn
    rfl

theorem popEach_pops {types : List SlotType} (hp : (f.popEach types).run r = .ok g) :
    ∃ popped, Accepted r types popped ∧ Pops r (fun f => f.popEach types) f popped g id := by
  induction types generalizing f with
  | nil =>
    cases Check.pure_ok.1 hp
    exact ⟨[], .nil, .nil fun _ => rfl⟩
  | cons t types ih =>
    obtain ⟨⟨actual, middle⟩, ht, hts⟩ := Check.bind_ok.1 hp
    obtain ⟨popped, accepted, pops⟩ := ih hts
    exact ⟨actual :: popped, .cons (popExpected_moves ht).1 accepted,
      (popExpected_pops ht).bind pops⟩

theorem popAll_pops {types : List SlotType} (hp : (f.popAll types).run r = .ok g) :
    ∃ popped, Accepted r types.reverse popped ∧ Pops r (fun f => f.popAll types) f popped g id :=
  popEach_pops hp

theorem popPair_pops (hp : f.popPair.run r = .ok (popped, g)) :
    Pops r popPair f popped g fun g => (popped, g) := by
  obtain ⟨⟨upper, middle⟩, hu, hp⟩ := Check.bind_ok.1 hp
  have top := pop_pops (r := r) (Check.lift_ok.1 hu)
  dsimp only at hp
  split at hp
  · next single =>
    obtain ⟨⟨lower, rest⟩, hl, he⟩ := Check.bind_ok.1 hp
    cases Check.pure_ok.1 he
    refine top.bind ?_
    simp only [single, if_true]
    exact (popExpected_pops hl).map fun _ => rfl
  · next pair =>
    split at hp
    · next second =>
      obtain ⟨⟨lower, rest⟩, hl, he⟩ := Check.bind_ok.1 hp
      cases Check.pure_ok.1 he
      refine top.bind ?_
      simp only [pair, second, if_true, Bool.false_eq_true, if_false]
      exact (popExpected_pops hl).map fun _ => rfl
    · simp at hp

theorem popSlots_pops {count : Nat} (hp : (f.popSlots count).run r = .ok (popped, g)) :
    Pops r (fun f => f.popSlots count) f popped g fun g => (popped, g) := by
  match count with
  | 0 =>
    cases Check.pure_ok.1 hp
    exact .nil fun _ => rfl
  | 1 =>
    obtain ⟨⟨only, rest⟩, ho, he⟩ := Check.bind_ok.1 hp
    cases Check.pure_ok.1 he
    exact (popExpected_pops ho).map fun _ => rfl
  | n + 2 => exact popPair_pops hp

/-- The slots that the check takes off the stack: with them alone it succeeds, and with fewer of
them the stack runs out. -/
structure Takes (r : Resolver) (x : Frame → Check α) (f : Frame) (popped : List SlotType) :
    Prop where
  top : popped <+: f.stack.slots
  enough : ∃ a, (x (f.keep popped.length)).run r = .ok a
  short : ∀ n < popped.length, (x (f.keep n)).run r = runsOut

namespace Takes
variable {x : Frame → Check α} {y : α → Check β} {result : Frame → α} {p q : List SlotType}

/-- No check takes off two different numbers of slots. -/
theorem unique (hp : Takes r x f p) (hq : Takes r x f q) : p = q := by
  have least {p q : List SlotType} (hp : Takes r x f p) (hq : Takes r x f q) :
      q.length ≤ p.length := by
    obtain ⟨a, enough⟩ := hp.enough
    refine Nat.le_of_not_lt fun few => ?_
    cases enough.symm.trans (hq.short _ few)
  have length := Nat.le_antisymm (least hq hp) (least hp hq)
  exact (List.prefix_of_prefix_length_le hp.top hq.top (Nat.le_of_eq length)).eq_of_length length

theorem nil (hx : ∃ a, (x (f.keep 0)).run r = .ok a) : Takes r x f [] :=
  ⟨List.nil_prefix, hx, nofun⟩

theorem of_pops (hx : Pops r x f p g result) : Takes r x f p where
  top := hx.stack ▸ List.prefix_append _ _
  enough := ⟨_, hx.enough 0⟩
  short := hx.short

/-- Some slots are taken off first and the others from what is left. -/
theorem bind (hx : Pops r x f p g result) (hy : Takes r (fun g => y (result g)) g q) :
    Takes r (fun f => x f >>= y) f (p ++ q) where
  top := hx.stack ▸ (List.prefix_append_right_inj p).2 hy.top
  enough := by
    obtain ⟨b, hb⟩ := hy.enough
    rw [List.length_append]
    exact ⟨b, (Check.run_bind_of_ok (hx.enough _)).trans hb⟩
  short n hn := by
    rw [Check.bind_error]
    rcases Nat.lt_or_ge n p.length with few | enough
    · exact .inl (hx.short n few)
    · rw [List.length_append] at hn
      obtain ⟨k, rfl⟩ := Nat.exists_eq_add_of_le enough
      exact .inr ⟨_, hx.enough k, hy.short k (by omega)⟩

/-- No more slots are taken off. -/
theorem bind_last (hx : Pops r x f p g result)
    (hy : ∃ b, (y (result (g.keep 0))).run r = .ok b) : Takes r (fun f => x f >>= y) f p :=
  p.append_nil ▸ bind hx (nil hy)

theorem map (hx : Takes r x f p) (hy : ∀ a, ∃ b, (y a).run r = .ok b) :
    Takes r (fun f => x f >>= y) f p where
  top := hx.top
  enough := by
    obtain ⟨a, ha⟩ := hx.enough
    obtain ⟨b, hb⟩ := hy a
    exact ⟨b, (Check.run_bind_of_ok ha).trans hb⟩
  short n hn := Check.bind_error.2 (.inl (hx.short n hn))

/-- A part that does not look at the frame comes first. -/
theorem after {c : Check β} {x : β → Frame → Check α} {b : β} (hc : c.run r = .ok b)
    (hx : Takes r (x b) f p) : Takes r (fun f => c >>= fun b => x b f) f p where
  top := hx.top
  enough := by
    obtain ⟨a, ha⟩ := hx.enough
    exact ⟨a, (Check.run_bind_of_ok hc).trans ha⟩
  short n hn := (Check.run_bind_of_ok hc).trans (hx.short n hn)

end Takes

private theorem pushAll_of_less {ts : List SlotType} (less : f.stack.depth ≤ g.stack.depth)
    (same : f.maxStack = g.maxStack) (hp : g.pushAll ts = .ok h) : ∃ f', f.pushAll ts = .ok f' := by
  induction ts generalizing f g with
  | nil => exact ⟨f, rfl⟩
  | cons t ts ih =>
    obtain ⟨middle, ht, hts⟩ := except_bind_ok.1 hp
    unfold push at ht
    split at ht
    · next deep =>
      cases ht
      have pushed : f.push t = .ok { f with stack := f.stack.push t } := by
        rw [push, if_pos (by omega)]
      obtain ⟨f', hf⟩ := ih (f := { f with stack := f.stack.push t })
        (g := { g with stack := g.stack.push t }) (Nat.succ_le_succ less) same hts
      exact ⟨f', except_bind_ok.2 ⟨_, pushed, hf⟩⟩
    · cases ht

/-- What has room on a stack has room on an empty one. -/
theorem pushAll_keep {ts : List SlotType}
    (hp : (liftM (f.pushAll ts) : Check Frame).run r = .ok g) :
    ∃ g', (liftM ((f.keep 0).pushAll ts) : Check Frame).run r = .ok g' := by
  have empty : (f.keep 0).stack.depth ≤ f.stack.depth := Nat.zero_le _
  obtain ⟨g', hg⟩ := pushAll_of_less empty rfl (Check.lift_ok.1 hp)
  exact ⟨g', Check.lift_ok.2 hg⟩

theorem push_keep {t : SlotType} (hp : (liftM (f.push t) : Check Frame).run r = .ok g) :
    ∃ g', (liftM ((f.keep 0).push t) : Check Frame).run r = .ok g' := by
  have all : f.pushAll [t] = .ok g := except_bind_ok.2 ⟨g, Check.lift_ok.1 hp, rfl⟩
  obtain ⟨g', hg⟩ := pushAll_keep (r := r) (Check.lift_ok.2 all)
  obtain ⟨middle, hm, _⟩ := except_bind_ok.1 (Check.lift_ok.1 hg)
  exact ⟨middle, Check.lift_ok.2 hm⟩

theorem load_keep {index : Nat} {expected t : SlotType} (n : Nat)
    (hl : (f.load index expected).run r = .ok (t, g)) :
    ((f.keep n).load index expected).run r = .ok (t, g.keep n) := by
  unfold load at hl ⊢
  split at hl
  · simp at hl
  · next inside =>
    obtain ⟨actual, ha, he⟩ := Check.bind_ok.1 hl
    cases Check.pure_ok.1 he
    rw [if_neg (show ¬(f.keep n).maxLocals ≤ index from inside)]
    exact Check.bind_ok.2 ⟨t, ha, rfl⟩

theorem store_keep {index : Nat} {type : SlotType} (n : Nat)
    (hs : (f.store index type).run r = .ok g) :
    ((f.keep n).store index type).run r = .ok (g.keep n) := by
  unfold store at hs ⊢
  dsimp only at hs ⊢
  split at hs
  · simp at hs
  · next room =>
    split at hs
    · simp at hs
    · next inside =>
      cases Check.pure_ok.1 hs
      rw [if_neg (show ¬(f.keep n).maxLocals < _ from room),
        if_neg (show ¬(f.keep n).locals.size < _ from inside)]
      rfl

end ClassVerifier.Frame
