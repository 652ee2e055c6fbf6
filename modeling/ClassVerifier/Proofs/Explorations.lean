import ClassVerifier.Proofs.Effects
import ClassVerifier.Proofs.InstructionStarts
import Mathlib.Data.Finset.Card
import Mathlib.Data.Multiset.AddSub
import Mathlib.Logic.Relation

/-! Explorations of code that follow normal control flow from an instruction, in whatever order. All
of them come to an end, and there they have found out whether some way from that instruction leaves
the method without a throw. Exploring the bytes of the code is one of them. -/
namespace ClassVerifier

/-- A return, or the call or the return of a subroutine. -/
def Instruction.leaves : Instruction → Bool
  | .returnValue _ | .returnVoid | .subroutine .. => true
  | _ => false

/-- Every offset to which control goes from the instruction, exceptions aside. -/
def Located.exits (i : Located) : List Int :=
  i.instruction.targets ++ if i.instruction.continues then [(i.next : Int)] else []

/-- How far an exploration has come: what it has visited, and what it has still to follow. -/
structure Exploration where
  visited : Finset Nat
  pending : Multiset Int

namespace Listing
variable {code : Array UInt8} {l : Listing} {i j : Located} {target start : Int} {b : Nat}

/-- Control may go from the one instruction to the other one without an exception. -/
inductive Leads (l : Listing) (i j : Located) : Prop
  | next (continues : i.instruction.continues) (lands : l.at? i.next = some j)
  | jump {target : Int} (mem : target ∈ i.instruction.targets)
      (lands : l.target? target = some j)

/-- Control may leave the method at the instruction without a throw, or go where none starts. -/
inductive Completes (l : Listing) (i : Located) : Prop
  | leaves (h : i.instruction.leaves)
  | astray {target : Int} (mem : target ∈ i.instruction.targets)
      (nowhere : l.target? target = none)
  | ends (continues : i.instruction.continues) (last : l.length ≤ i.next)

/-- Normal control flow may come to the instruction from where the exploration starts. -/
def Reached (l : Listing) (start : Int) (i : Located) : Prop :=
  ∃ first, l.target? start = some first ∧ Relation.ReflTransGen l.Leads first i

end Listing

namespace Exploration

/-- Any pending offset may be followed next. The exploration goes on from an instruction only if it
has not been there before. -/
inductive Step (l : Listing) : Exploration → Exploration → Prop
  | pass {target : Int} {i : Located} {visited : Finset Nat} {pending : Multiset Int}
      (lands : l.target? target = some i) (seen : i.offset ∈ visited) :
      Step l ⟨visited, target ::ₘ pending⟩ ⟨visited, pending⟩
  | visit {target : Int} {i : Located} {visited : Finset Nat} {pending : Multiset Int}
      (lands : l.target? target = some i) (fresh : i.offset ∉ visited)
      (stays : i.instruction.leaves = false) :
      Step l ⟨visited, target ::ₘ pending⟩ ⟨insert i.offset visited, i.exits + pending⟩

/-- The answer where an exploration stands: all ways end in a throw if none is left to follow, and
some way completes if it leads nowhere or to an instruction that leaves the method. -/
inductive Concludes (l : Listing) (e : Exploration) : Bool → Prop
  | throws (done : e.pending = 0) : Concludes l e true
  | completes {target : Int} (mem : target ∈ e.pending)
      (stuck : ∀ i, l.target? target = some i → i.offset ∉ e.visited ∧ i.instruction.leaves) :
      Concludes l e false

/-- The offset is still to be followed, or has been. -/
def Knows (e : Exploration) (l : Listing) (target : Int) : Prop :=
  target ∈ e.pending ∨ ∃ j, l.target? target = some j ∧ j.offset ∈ e.visited

/-- What an exploration keeps up: only what is reached is followed, and of what has been visited all
exits are known. -/
structure Sound (l : Listing) (start : Int) (e : Exploration) : Prop where
  pending : ∀ target ∈ e.pending, target = start ∨
    ∃ i ∈ l.body, l.Reached start i ∧ target ∈ i.exits
  visited : ∀ i ∈ l.body, i.offset ∈ e.visited →
    i.instruction.leaves = false ∧ ∀ target ∈ i.exits, e.Knows l target
  start : e.Knows l start

end Exploration

namespace Listing
variable {code : Array UInt8} {l : Listing} {i j : Located} {target start : Int} {b : Nat}

private theorem target?_natCast (l : Listing) (b : Nat) : l.target? b = l.at? b := by
  rw [target?, if_neg (by omega), Int.toNat_natCast]

private theorem target?_mem (decoded : ofCode code = .ok l) (lands : l.target? target = some i) :
    i ∈ l.body := by
  unfold target? at lands
  split at lands
  · cases lands
  · exact ((at?_eq_some_iff decoded).1 lands).1

private theorem mem_exits : target ∈ i.exits ↔
    target ∈ i.instruction.targets ∨ i.instruction.continues ∧ target = i.next := by
  unfold Located.exits
  split <;> simp [*]

private theorem leads_iff : l.Leads i j ↔ ∃ target ∈ i.exits, l.target? target = some j := by
  constructor
  · rintro (⟨continues, lands⟩ | ⟨mem, lands⟩)
    · exact ⟨i.next, mem_exits.2 (.inr ⟨continues, rfl⟩), (target?_natCast l _).trans lands⟩
    · exact ⟨_, mem_exits.2 (.inl mem), lands⟩
  · rintro ⟨target, mem, lands⟩
    rcases mem_exits.1 mem with mem | ⟨continues, rfl⟩
    · exact .jump mem lands
    · exact .next continues ((target?_natCast l _).symm.trans lands)

private theorem completes_iff (decoded : ofCode code = .ok l) (hi : i ∈ l.body) :
    l.Completes i ↔ i.instruction.leaves ∨ ∃ target ∈ i.exits, l.target? target = none := by
  constructor
  · rintro (leaves | ⟨mem, nowhere⟩ | ⟨continues, last⟩)
    · exact .inl leaves
    · exact .inr ⟨_, mem_exits.2 (.inl mem), nowhere⟩
    · refine .inr ⟨i.next, mem_exits.2 (.inr ⟨continues, rfl⟩), ?_⟩
      rw [target?_natCast]
      exact (at?_next_eq_none_iff decoded hi).2 last
  · rintro (leaves | ⟨target, mem, nowhere⟩)
    · exact .leaves leaves
    · rcases mem_exits.1 mem with mem | ⟨continues, rfl⟩
      · exact .astray mem nowhere
      · rw [target?_natCast] at nowhere
        exact .ends continues ((at?_next_eq_none_iff decoded hi).1 nowhere)

private theorem start?_eq_some (h : l.start? target = some b) :
    (b : Int) = target ∧ l.isStart b := by
  obtain ⟨i, lands, rfl⟩ := Option.map_eq_some_iff.1 h
  unfold target? at lands
  split at lands
  · cases lands
  · next here => exact ⟨Int.toNat_of_nonneg (Int.not_lt.1 here), by rw [isStart, lands]; rfl⟩

private theorem mapM_start?_eq_none {targets : List Int} (h : targets.mapM l.start? = none) :
    ∃ target ∈ targets, l.target? target = none := by
  induction targets with
  | nil => cases h
  | cons target targets ih =>
    rw [List.mapM_cons] at h
    cases lands : l.start? target with
    | none => exact ⟨target, List.mem_cons_self, Option.map_eq_none_iff.1 lands⟩
    | some b =>
      cases rest : targets.mapM l.start? with
      | none =>
        obtain ⟨other, mem, nowhere⟩ := ih rest
        exact ⟨other, List.mem_cons_of_mem _ mem, nowhere⟩
      | some bs => simp [lands, rest] at h

private theorem mapM_start?_eq_some {targets : List Int} {starts : List Nat}
    (h : targets.mapM l.start? = some starts) :
    starts.map Nat.cast = targets ∧ ∀ b ∈ starts, l.isStart b := by
  induction targets generalizing starts with
  | nil =>
    cases h
    exact ⟨rfl, nofun⟩
  | cons target targets ih =>
    rw [List.mapM_cons] at h
    obtain ⟨b, lands, h⟩ := Option.bind_eq_some_iff.1 h
    obtain ⟨bs, rest, h⟩ := Option.bind_eq_some_iff.1 h
    cases h
    obtain ⟨there, start⟩ := start?_eq_some lands
    obtain ⟨others, starts⟩ := ih rest
    exact ⟨by rw [List.map_cons, there, others], List.forall_mem_cons.2 ⟨start, starts⟩⟩

/-- The exploration is over at an instruction if control may leave the method or lead astray. -/
private theorem onward?_eq_none (h : l.onward? i = none) :
    i.instruction.leaves ∨ ∃ target ∈ i.instruction.targets, l.target? target = none := by
  obtain ⟨_, _, _, instruction⟩ := i
  cases instruction with
  | returnValue | returnVoid | subroutine => exact .inl rfl
  | jump target | branch _ target =>
    have nowhere := Option.map_eq_none_iff.1 (Option.map_eq_none_iff.1 h)
    exact .inr ⟨target, List.mem_singleton_self _, nowhere⟩
  | switch table => exact .inr (mapM_start?_eq_none (Option.map_eq_none_iff.1 h))
  | _ => cases h

/-- Otherwise it goes on by the exits: each of them is where an instruction starts or comes next. -/
private theorem onward?_eq_some {onward : List Nat} (h : l.onward? i = some onward) :
    i.instruction.leaves = false ∧ (onward.map Nat.cast).Perm i.exits ∧
      ∀ b ∈ onward, l.isStart b ∨ b = i.next := by
  obtain ⟨_, _, _, instruction⟩ := i
  cases instruction with
  | returnValue | returnVoid | subroutine => cases h
  | jump target =>
    obtain ⟨b, lands, rfl⟩ := Option.map_eq_some_iff.1 h
    obtain ⟨rfl, start⟩ := start?_eq_some lands
    exact ⟨rfl, .refl _, List.forall_mem_singleton.2 (.inl start)⟩
  | branch _ target =>
    obtain ⟨b, lands, rfl⟩ := Option.map_eq_some_iff.1 h
    obtain ⟨rfl, start⟩ := start?_eq_some lands
    exact ⟨rfl, .swap .., List.forall_mem_cons.2
      ⟨.inr rfl, List.forall_mem_singleton.2 (.inl start)⟩⟩
  | switch table =>
    obtain ⟨starts, lands, rfl⟩ := Option.map_eq_some_iff.1 h
    obtain ⟨there, starts⟩ := mapM_start?_eq_some lands
    refine ⟨rfl, ?_, fun b hb => .inl (starts b (List.mem_reverse.1 hb))⟩
    rw [List.map_reverse, there]
    exact (List.reverse_perm _).trans (.of_eq (List.append_nil table.targets).symm)
  | throw =>
    cases h
    exact ⟨rfl, .refl _, nofun⟩
  | _ =>
    cases h
    exact ⟨rfl, .refl _, List.forall_mem_singleton.2 (.inr rfl)⟩

end Listing

namespace Exploration
open Listing
variable {code : Array UInt8} {l : Listing} {i j : Located} {target start : Int}
  {e e' : Exploration} {answer : Bool}

private theorem Step.knows (step : Step l e e') (h : e.Knows l target) : e'.Knows l target := by
  cases step with
  | pass lands seen =>
    rcases h with mem | visited
    · rcases Multiset.mem_cons.1 mem with rfl | mem
      · exact .inr ⟨_, lands, seen⟩
      · exact .inl mem
    · exact .inr visited
  | visit lands fresh stays =>
    rcases h with mem | ⟨j, landed, seen⟩
    · rcases Multiset.mem_cons.1 mem with rfl | mem
      · exact .inr ⟨_, lands, Finset.mem_insert_self _ _⟩
      · exact .inl (Multiset.mem_add.2 (.inr mem))
    · exact .inr ⟨j, landed, Finset.mem_insert_of_mem seen⟩

private theorem Sound.reached (sound : e.Sound l start) (mem : target ∈ e.pending)
    (lands : l.target? target = some i) : l.Reached start i := by
  rcases sound.pending target mem with rfl | ⟨j, _, ⟨first, starts, path⟩, exit⟩
  · exact ⟨i, lands, .refl⟩
  · exact ⟨first, starts, path.tail (leads_iff.2 ⟨target, exit, lands⟩)⟩

private theorem Step.sound (decoded : ofCode code = .ok l) (step : Step l e e')
    (sound : e.Sound l start) : e'.Sound l start where
  pending := by
    cases step with
    | pass lands seen =>
      exact fun target mem => sound.pending target (Multiset.mem_cons_of_mem mem)
    | visit lands fresh stays =>
      intro target mem
      rcases Multiset.mem_add.1 mem with exit | mem
      · exact .inr ⟨_, target?_mem decoded lands,
          sound.reached (Multiset.mem_cons_self _ _) lands, Multiset.mem_coe.1 exit⟩
      · exact sound.pending target (Multiset.mem_cons_of_mem mem)
  visited := by
    intro j hj seen
    have old (seen : j.offset ∈ e.visited) :
        j.instruction.leaves = false ∧ ∀ target ∈ j.exits, e'.Knows l target := by
      obtain ⟨stays, known⟩ := sound.visited j hj seen
      exact ⟨stays, fun target exit => step.knows (known target exit)⟩
    cases step with
    | pass lands _ => exact old seen
    | visit lands fresh stays =>
      rcases Finset.mem_insert.1 seen with he | seen
      · obtain rfl := eq_of_offset_eq decoded hj (target?_mem decoded lands) he
        exact ⟨stays, fun target exit => .inl (Multiset.mem_add.2 (.inl exit))⟩
      · exact old seen
  start := step.knows sound.start

private theorem sound_start (start : Int) : Sound l start ⟨∅, {start}⟩ where
  pending _ mem := .inl (Multiset.mem_singleton.1 mem)
  visited _ _ seen := absurd seen (Finset.notMem_empty _)
  start := .inl (Multiset.mem_singleton_self start)

private theorem Sound.run (decoded : ofCode code = .ok l) (sound : e.Sound l start)
    (run : Relation.ReflTransGen (Step l) e e') : e'.Sound l start := by
  induction run with
  | refl => exact sound
  | tail _ step ih => exact step.sound decoded ih

/-- With nothing left to follow, all that is reached has been visited. -/
private theorem Sound.visited_of_reached (decoded : ofCode code = .ok l) (sound : e.Sound l start)
    (done : e.pending = 0) (reached : l.Reached start i) : i ∈ l.body ∧ i.offset ∈ e.visited := by
  have landed {target : Int} {j : Located} (known : e.Knows l target)
      (lands : l.target? target = some j) : j ∈ l.body ∧ j.offset ∈ e.visited := by
    rcases known with mem | ⟨j', landed, seen⟩
    · rw [done] at mem
      exact absurd mem (Multiset.notMem_zero _)
    · cases lands.symm.trans landed
      exact ⟨target?_mem decoded lands, seen⟩
  obtain ⟨first, starts, path⟩ := reached
  induction path with
  | refl => exact landed sound.start starts
  | tail _ leads ih =>
    obtain ⟨target, exit, lands⟩ := leads_iff.1 leads
    exact landed ((sound.visited _ ih.1 ih.2).2 target exit) lands

private theorem Concludes.eq_false_iff (decoded : ofCode code = .ok l)
    (sound : e.Sound l start) {first : Located} (starts : l.target? start = some first)
    (concludes : e.Concludes l answer) :
    answer = false ↔ ∃ i, l.Reached start i ∧ l.Completes i := by
  cases concludes with
  | throws done =>
    refine iff_of_false nofun ?_
    rintro ⟨i, reached, completes⟩
    obtain ⟨hi, seen⟩ := sound.visited_of_reached decoded done reached
    obtain ⟨stays, known⟩ := sound.visited i hi seen
    rcases (completes_iff decoded hi).1 completes with leaves | ⟨target, exit, nowhere⟩
    · rw [stays] at leaves
      cases leaves
    · rcases known target exit with mem | ⟨j, lands, _⟩
      · rw [done] at mem
        exact Multiset.notMem_zero _ mem
      · rw [nowhere] at lands
        cases lands
  | completes mem stuck =>
    refine iff_of_true rfl ?_
    rename_i target
    cases lands : l.target? target with
    | some i => exact ⟨i, sound.reached mem lands, .leaves (stuck i lands).2⟩
    | none =>
      rcases sound.pending target mem with rfl | ⟨i, hi, reached, exit⟩
      · rw [starts] at lands
        cases lands
      · exact ⟨i, reached, (completes_iff decoded hi).2 (.inr ⟨target, exit, lands⟩)⟩

/-- Every step visits another instruction or leaves less to follow. -/
private theorem step_wellFounded (decoded : ofCode code = .ok l) :
    WellFounded fun e' e => Step l e e' := by
  let starts := (l.body.map Located.offset).toFinset
  refine Subrelation.wf (r := InvImage (Prod.Lex (· < ·) (· < ·)) fun e : Exploration =>
    ((starts \ e.visited).card, e.pending.card)) (fun {e' e} step => ?_)
    (InvImage.wf _ (Nat.lt_wfRel.wf.prod_lex Nat.lt_wfRel.wf))
  cases step with
  | pass lands seen =>
    refine .right _ ?_
    rw [Multiset.card_cons]
    exact Nat.lt_succ_self _
  | visit lands fresh stays =>
    have start : _ ∈ starts :=
      List.mem_toFinset.2 (List.mem_map_of_mem (target?_mem decoded lands))
    refine .left _ _ (Finset.card_lt_card ?_)
    rw [Finset.sdiff_insert]
    exact Finset.erase_ssubset (Finset.mem_sdiff.2 ⟨start, fresh⟩)

/-- An exploration that has not come to its end goes on. -/
private theorem step_or_concludes (l : Listing) (e : Exploration) :
    (∃ e', Step l e e') ∨ ∃ answer, e.Concludes l answer := by
  obtain ⟨visited, pending⟩ := e
  rcases Multiset.empty_or_exists_mem pending with rfl | ⟨target, mem⟩
  · exact .inr ⟨true, .throws rfl⟩
  · obtain ⟨rest, rfl⟩ := Multiset.exists_cons_of_mem mem
    cases lands : l.target? target with
    | none => exact .inr ⟨false, .completes mem fun i found => by rw [lands] at found; cases found⟩
    | some i =>
      by_cases seen : i.offset ∈ visited
      · exact .inl ⟨_, .pass lands seen⟩
      · cases leaves : i.instruction.leaves with
        | false => exact .inl ⟨_, .visit lands seen leaves⟩
        | true =>
          refine .inr ⟨false, .completes mem fun j found => ?_⟩
          cases lands.symm.trans found
          exact ⟨seen, leaves⟩

end Exploration

namespace Listing
variable {code : Array UInt8} {l : Listing} {i : Located}

/-- The offsets that have been visited. -/
private def offsets {n : Nat} (visited : Vector Bool n) : Finset Nat :=
  (Finset.range n).filter fun b => visited[b]? = some true

private theorem mem_offsets {n b : Nat} {visited : Vector Bool n} (h : b < n) :
    b ∈ offsets visited ↔ visited[b] = true := by
  rw [offsets, Finset.mem_filter, Finset.mem_range, Vector.getElem?_eq_getElem h]
  simp [h]

private theorem offsets_set {n b : Nat} {visited : Vector Bool n} (h : b < n) :
    offsets (visited.set b true) = insert b (offsets visited) := by
  ext k
  rw [Finset.mem_insert]
  by_cases inside : k < n
  · rw [mem_offsets inside, mem_offsets inside, Vector.getElem_set]
    by_cases here : b = k
    · simp [here]
    · simp [here, Ne.symm here]
  · have apart : k ≠ b := by omega
    simp [offsets, inside, apart]

/-- How far exploring the code has come with these offsets visited and those still to follow. -/
private def explored {n : Nat} (visited : Vector Bool n) (pending : List Nat) : Exploration :=
  ⟨offsets visited, (pending.map Nat.cast : List Int)⟩

section
variable {n b : Nat} {visited : Vector Bool n} {onward more : List Nat}

private theorem explored_cons (visited : Vector Bool n) (b : Nat) (more : List Nat) :
    explored visited (b :: more) =
      ⟨offsets visited, (b : Int) ::ₘ (more.map Nat.cast : List Int)⟩ := rfl

private theorem step_pass (lands : l.target? b = some i) (seen : i.offset ∈ offsets visited) :
    Exploration.Step l (explored visited (b :: more)) (explored visited more) := by
  rw [explored_cons]
  exact .pass lands seen

private theorem step_visit (lands : l.target? i.offset = some i) (inside : i.offset < n)
    (fresh : i.offset ∉ offsets visited) (goes : l.onward? i = some onward) :
    Exploration.Step l (explored visited (i.offset :: more))
      (explored (visited.set i.offset true) (onward ++ more)) := by
  obtain ⟨stays, exits, _⟩ := onward?_eq_some goes
  have follows : ((onward ++ more).map Nat.cast : List Int) =
      (i.exits + (more.map Nat.cast : List Int) : Multiset Int) := by
    rw [List.map_append, ← Multiset.coe_add, Multiset.coe_eq_coe.2 exits]
  rw [explored_cons, explored, offsets_set inside, follows]
  exact .visit lands fresh stays

/-- Where exploring the code does not go on from an instruction, an exploration ends at it or right
behind it. -/
private theorem exists_completes (lands : l.target? i.offset = some i)
    (fresh : i.offset ∉ offsets visited) (stuck : l.onward? i = none) :
    ∃ e, Relation.ReflTransGen (Exploration.Step l) (explored visited (i.offset :: more)) e ∧
      e.Concludes l false := by
  rw [explored_cons]
  cases leaves : i.instruction.leaves with
  | true =>
    have here := Multiset.mem_cons_self (i.offset : Int) (more.map Nat.cast : List Int)
    refine ⟨_, .refl, .completes here fun j found => ?_⟩
    cases lands.symm.trans found
    exact ⟨fresh, leaves⟩
  | false =>
    obtain ⟨target, mem, nowhere⟩ := (onward?_eq_none stuck).resolve_left (by simp [leaves])
    have ahead : target ∈ (i.exits + (more.map Nat.cast : List Int) : Multiset Int) :=
      Multiset.mem_add.2 (.inl (mem_exits.2 (.inl mem)))
    refine ⟨_, .single (.visit lands fresh leaves), .completes ahead fun j found => ?_⟩
    rw [nowhere] at found
    cases found

end

/-- What is followed from an instruction is an instruction again, or the end of the code. -/
private theorem start_or_end_of_onward (decoded : ofCode code = .ok l) (hi : i ∈ l.body)
    {onward : List Nat} (goes : l.onward? i = some onward) :
    ∀ b ∈ onward, l.isStart b ∨ code.size ≤ b := by
  intro b hb
  rcases (onward?_eq_some goes).2.2 b hb with start | rfl
  · exact .inl start
  · rcases (covers_ofCode decoded).next hi with past | next
    · exact .inr past
    · exact .inl ((isStart_iff decoded).2 next)

/-- Exploring the code is one of the explorations there can be. All that it follows is instructions
and the end of the code, so reading never fails. -/
private theorem explore_concludes (decoded : ofCode code = .ok l) {visited : Vector Bool code.size}
    {pending : List Nat} (known : ∀ b ∈ pending, l.isStart b ∨ code.size ≤ b) :
    ∃ answer e, l.explore code visited pending = .ok answer ∧
      Relation.ReflTransGen (Exploration.Step l) (explored visited pending) e ∧
      e.Concludes l answer := by
  have found {b : Nat} (start : l.isStart b ∨ code.size ≤ b) (inside : b < code.size) :
      ∃ i, l.target? b = some i ∧ i.offset = b ∧ Instruction.decode? code b = some i := by
    obtain ⟨i, found⟩ := Option.isSome_iff_exists.1 (start.resolve_right (Nat.not_le.2 inside))
    refine ⟨i, (target?_natCast l b).trans found, ?_, decode?_of_at? decoded found⟩
    exact ((at?_eq_some_iff decoded).1 found).2
  fun_induction explore l code visited pending with
  | case1 visited => exact ⟨true, _, rfl, .refl, .throws rfl⟩
  | case2 visited b more inside illegal =>
    obtain ⟨i, _, _, read⟩ := found (known b List.mem_cons_self) inside
    cases illegal.symm.trans read
  | case3 visited b more inside i read seen ih =>
    obtain ⟨start, rest⟩ := List.forall_mem_cons.1 known
    obtain ⟨j, lands, rfl, same⟩ := found start inside
    cases read.symm.trans same
    obtain ⟨answer, e, ends, run, concludes⟩ := ih rest
    exact ⟨answer, e, ends, run.head (step_pass lands ((mem_offsets inside).2 seen)), concludes⟩
  | case4 visited b more inside i read fresh stuck =>
    obtain ⟨j, lands, rfl, same⟩ := found (known b List.mem_cons_self) inside
    cases read.symm.trans same
    have fresh : i.offset ∉ offsets visited := fun seen => fresh ((mem_offsets inside).1 seen)
    obtain ⟨e, run, concludes⟩ := exists_completes lands fresh stuck
    exact ⟨false, e, rfl, run, concludes⟩
  | case5 visited b more inside i read fresh onward goes ih =>
    obtain ⟨start, rest⟩ := List.forall_mem_cons.1 known
    obtain ⟨j, lands, rfl, same⟩ := found start inside
    cases read.symm.trans same
    have fresh : i.offset ∉ offsets visited := fun seen => fresh ((mem_offsets inside).1 seen)
    have ahead := start_or_end_of_onward decoded (target?_mem decoded lands) goes
    obtain ⟨answer, e, ends, run, concludes⟩ := ih (List.forall_mem_append.2 ⟨ahead, rest⟩)
    exact ⟨answer, e, ends, run.head (step_visit lands inside fresh goes), concludes⟩
  | case6 visited b more outside =>
    have here := Multiset.mem_cons_self (b : Int) (more.map Nat.cast : List Int)
    refine ⟨false, _, rfl, .refl, .completes here fun i found => ?_⟩
    have inside := ((covers_ofCode decoded).mem (target?_mem decoded found)).2.2
    rw [target?_natCast] at found
    rw [((at?_eq_some_iff decoded).1 found).2] at inside
    exact absurd inside outside

private theorem endsInThrow_concludes (decoded : ofCode code = .ok l) (start : l.isStart b) :
    ∃ answer e, l.endsInThrow code b = .ok answer ∧
      Relation.ReflTransGen (Exploration.Step l) ⟨∅, {(b : Int)}⟩ e ∧ e.Concludes l answer := by
  have fresh : offsets (Vector.replicate code.size false) = ∅ := by
    refine Finset.filter_eq_empty_iff.2 fun k hk => ?_
    simp [Finset.mem_range.1 hk]
  rw [← fresh]
  exact explore_concludes decoded (List.forall_mem_singleton.2 (.inl start))

/-- Whether all ways from an instruction end in a throw is always answered. -/
theorem endsInThrow_ok (decoded : ofCode code = .ok l) (start : l.isStart b) :
    ∃ answer, l.endsInThrow code b = .ok answer := by
  obtain ⟨answer, _, ends, _⟩ := endsInThrow_concludes decoded start
  exact ⟨answer, ends⟩

/-- Whether all ways from an instruction end in a throw is always answered, and exactly: the answer
is no if and only if control may come, without an exception, to an instruction where the method can
be left otherwise. The order in which the ways are followed makes no difference: every exploration
comes to an end, and where it ends the answer is the same. -/
theorem endsInThrow_exact (decoded : ofCode code = .ok l) {b : Nat} {first : Located}
    (starts : l.at? b = some first) :
    ∃ answer, l.endsInThrow code b = .ok answer ∧
      (answer = false ↔ ∃ i, Relation.ReflTransGen l.Leads first i ∧ l.Completes i) ∧
      (WellFounded fun e' e => Exploration.Step l e e') ∧
      ∀ e, Relation.ReflTransGen (Exploration.Step l) ⟨∅, {(b : Int)}⟩ e →
        ((∃ e', Exploration.Step l e e') ∨ ∃ other, e.Concludes l other) ∧
        ∀ other, e.Concludes l other → other = answer := by
  have start : l.isStart b := by
    rw [isStart, starts]
    rfl
  have starts : l.target? b = some first := (target?_natCast l b).trans starts
  have exact {e : Exploration} {answer : Bool}
      (run : Relation.ReflTransGen (Exploration.Step l) ⟨∅, {(b : Int)}⟩ e)
      (concludes : e.Concludes l answer) : answer = false ↔
        ∃ i, Relation.ReflTransGen l.Leads first i ∧ l.Completes i := by
    have sound := (Exploration.sound_start b).run decoded run
    rw [concludes.eq_false_iff decoded sound starts]
    simp only [Reached, starts, Option.some.injEq, exists_eq_left']
  obtain ⟨answer, e, ends, run, concludes⟩ := endsInThrow_concludes decoded start
  have correct := exact run concludes
  refine ⟨answer, ends, correct, Exploration.step_wellFounded decoded, fun e run => ⟨?_, ?_⟩⟩
  · exact Exploration.step_or_concludes l e
  · exact fun other ends =>
      Bool.eq_iff_iff.2 (by simpa using (exact run ends).trans correct.symm)

/-- A branch whose two ways come together in a throw, and behind it a loop that ends in a return. -/
def branchingCode : Array UInt8 :=
  #[0x1a, 0x99, 0x00, 0x05, 0x01, 0xbf, 0xa7, 0xff, 0xfe, 0x1a, 0x99, 0xff, 0xff, 0xb1]

def branchingBody : List Located :=
  [⟨0, 0x1a, 1, .load (.number .int) 0⟩, ⟨1, 0x99, 3, .branch .int 6⟩,
    ⟨4, 0x01, 1, .const .reference⟩, ⟨5, 0xbf, 1, .throw⟩, ⟨6, 0xa7, 3, .jump 4⟩,
    ⟨9, 0x1a, 1, .load (.number .int) 0⟩, ⟨10, 0x99, 3, .branch .int 9⟩, ⟨13, 0xb1, 1, .returnVoid⟩]

def branching : Listing :=
  ⟨14, branchingBody, branchingBody.foldl place (Array.replicate 14 none)⟩

/-- No way from the branch completes, and some way out of the loop does. -/
theorem endsInThrow_exact_branching : ofCode branchingCode = .ok branching ∧
    ∃ first second, branching.at? 0 = some first ∧ branching.at? 9 = some second ∧
      (¬∃ i, Relation.ReflTransGen branching.Leads first i ∧ branching.Completes i) ∧
      ∃ i, Relation.ReflTransGen branching.Leads second i ∧ branching.Completes i := by
  have decoded : ofCode branchingCode = .ok branching := by decide +kernel
  have first : branching.at? 0 = some ⟨0, 0x1a, 1, .load (.number .int) 0⟩ := by decide +kernel
  have second : branching.at? 9 = some ⟨9, 0x1a, 1, .load (.number .int) 0⟩ := by decide +kernel
  have size : branchingCode.size = 14 := rfl
  have reads : ∀ i ∈ branchingBody, Instruction.decode? branchingCode i.offset = some i := by
    decide +kernel
  simp only [branchingBody, List.forall_mem_cons] at reads
  have four : branching.start? 4 = some 4 := rfl
  have six : branching.start? 6 = some 6 := rfl
  have nine : branching.start? 9 = some 9 := rfl
  have throws : branching.endsInThrow branchingCode 0 = .ok true := by
    simp [endsInThrow, explore, onward?, Located.next, size, reads, four, six]
  have completes : branching.endsInThrow branchingCode 9 = .ok false := by
    simp [endsInThrow, explore, onward?, Located.next, size, reads, nine]
  obtain ⟨_, yes, exact, _⟩ := endsInThrow_exact decoded first
  obtain ⟨_, no, exact', _⟩ := endsInThrow_exact decoded second
  cases throws.symm.trans yes
  cases completes.symm.trans no
  refine ⟨decoded, _, _, first, second, fun some => ?_, exact'.1 rfl⟩
  cases exact.2 some

end Listing
end ClassVerifier
