import ClassVerifier.ClassFile.Position
import ClassVerifier.Proofs.InstructionStarts
import Mathlib.Data.List.Forall2
import Mathlib.Data.List.Perm.Subperm

/-! Exception tables counted in instructions and back in bytes. Where protected code and handlers
start survives, and the end of protected code goes back to the last instruction that starts at or
before it. -/
namespace ClassVerifier

/-- Where the instructions start, in order. -/
def Listing.positions (l : Listing) : List Nat := l.body.map (·.offset)

namespace Handler

/-- The entry counted in instructions: start and handler are named by index, and the end is one more
than the index of the last instruction that starts at or before it. -/
structure Counted (starts : List Nat) (h : Handler) (e : IndexedHandler) : Prop where
  start : starts[e.start.toNat]? = some h.start.toNat
  stop : ∃ last b, e.stop.toNat = last + 1 ∧ starts[last]? = some b ∧ b ≤ h.stop.toNat ∧
    ∀ k > last, ∀ c ∈ starts[k]?, h.stop.toNat < c
  target : starts[e.target.toNat]? = some h.target.toNat
  catchIndex : e.catchIndex = h.catchIndex

/-- The entry that comes back protects code from the same start on, with the same handler and the
same catch type, up to the last instruction that starts at or before the end. -/
structure Restored (l : Listing) (h h' : Handler) : Prop where
  start : h'.start = h.start
  target : h'.target = h.target
  catchIndex : h'.catchIndex = h.catchIndex
  stop_isStart : l.isStart h'.stop.toNat
  stop_le : h'.stop.toNat ≤ h.stop.toNat
  greatest : ∀ b ≤ h.stop.toNat, l.isStart b → b ≤ h'.stop.toNat

end Handler

variable {code : Array UInt8} {l : Listing} {starts : List Nat} {b k : Nat}

namespace Listing

theorem mem_positions (listed : ofCode code = .ok l) : b ∈ l.positions ↔ l.isStart b := by
  rw [positions, List.mem_map, isStart_iff listed]

theorem ascending_positions (listed : ofCode code = .ok l) : l.positions.Pairwise (· < ·) :=
  List.pairwise_map.2 (covers_ofCode listed).ascending

theorem lt_size_of_mem_positions (listed : ofCode code = .ok l) (hb : b ∈ l.positions) :
    b < code.size := by
  obtain ⟨i, hi, rfl⟩ := List.mem_map.1 hb
  exact ((covers_ofCode listed).mem hi).2.2

/-- There are no more instructions than bytes. -/
theorem length_positions_le (listed : ofCode code = .ok l) : l.positions.length ≤ code.size := by
  have distinct : l.positions.Nodup := (ascending_positions listed).imp Nat.ne_of_lt
  have inside : l.positions ⊆ List.range code.size := fun b hb =>
    List.mem_range.2 (lt_size_of_mem_positions listed hb)
  have short := (distinct.subperm inside).length_le
  rwa [List.length_range] at short

theorem first_position (listed : ofCode code = .ok l) (hb : b ∈ l.positions) :
    l.positions[0]? = some 0 := by
  have covers := covers_ofCode listed
  rw [positions, List.getElem?_map, ← List.head?_eq_getElem?]
  cases body : l.body with
  | nil =>
    rw [positions, body] at hb
    cases hb
  | cons i is =>
    have first : i.offset = 0 := covers.head_offset (body ▸ rfl)
    rw [List.head?_cons, Option.map_some, first]

end Listing

/-- The numbers up to a bound come first in an ascending list, so that their count tells which ones
they are. -/
private theorem lt_countP_iff (ascending : starts.Pairwise (· < ·)) {bound : Nat}
    (found : starts[k]? = some b) : k < starts.countP (· ≤ bound) ↔ b ≤ bound := by
  induction starts generalizing k with
  | nil => cases found
  | cons first starts ih =>
    obtain ⟨higher, ascending⟩ := List.pairwise_cons.1 ascending
    have none (high : bound < first) : starts.countP (· ≤ bound) = 0 := by
      rw [List.countP_eq_zero]
      intro c hc
      have := higher c hc
      simp only [decide_eq_true_eq]
      omega
    simp only [List.countP_cons, decide_eq_true_eq]
    cases k with
    | zero =>
      cases found
      split
      case isTrue low => omega
      case isFalse high => rw [none (by omega)]; omega
    | succ k =>
      have later := ih ascending found
      split
      case isTrue low => omega
      case isFalse high =>
        have := higher b (List.mem_of_getElem? found)
        rw [none (by omega)]
        omega

namespace Handler
variable {h h' : Handler} {e : IndexedHandler}

private theorem idxOf?_toNat (short : starts.length < 65536) (hb : b ∈ starts) :
    ∃ k, starts.idxOf? b = some k ∧ starts[(UInt16.ofNat k).toNat]? = some b := by
  obtain ⟨k, hk⟩ := Option.isSome_iff_exists.1 (List.isSome_idxOf?.2 hb)
  obtain ⟨inside, at_k, -⟩ := List.idxOf?_eq_some_iff.1 hk
  refine ⟨k, hk, ?_⟩
  rw [UInt16.toNat_ofNat_of_lt' (Nat.lt_trans inside short), List.getElem?_eq_getElem inside, at_k]

private theorem exists_counted (listed : Listing.ofCode code = .ok l) (small : code.size ≤ 65535)
    (start : l.isStart h.start.toNat) (target : l.isStart h.target.toNat) :
    ∃ e, h.indexed? l.positions = some e ∧ h.Counted l.positions e := by
  have ascending := Listing.ascending_positions listed
  have short : l.positions.length < 65536 := by
    have := Listing.length_positions_le listed
    omega
  have startIn := (Listing.mem_positions listed).2 start
  obtain ⟨i, hi, at_i⟩ := idxOf?_toNat short startIn
  obtain ⟨j, hj, at_j⟩ := idxOf?_toNat short ((Listing.mem_positions listed).2 target)
  let count := l.positions.countP (· ≤ h.stop.toNat)
  have positive : 0 < count :=
    (lt_countP_iff ascending (Listing.first_position listed startIn)).2 (Nat.zero_le _)
  have bounded : count ≤ l.positions.length := List.countP_le_length
  have found : l.positions[count - 1]? = some l.positions[count - 1] := List.getElem?_eq_getElem _
  refine ⟨⟨.ofNat i, .ofNat count, .ofNat j, h.catchIndex⟩, ?_, ?_⟩
  · rw [indexed?, hi, hj]
    rfl
  · refine ⟨at_i, ⟨count - 1, l.positions[count - 1], ?_, found, ?_, ?_⟩, at_j, rfl⟩
    · change (UInt16.ofNat count).toNat = _
      rw [UInt16.toNat_ofNat_of_lt' (Nat.lt_of_le_of_lt bounded short)]
      omega
    · exact (lt_countP_iff ascending found).1 (by change _ < count; omega)
    · intro k past c at_k
      have beyond : ¬ k < count := by omega
      rw [lt_countP_iff ascending at_k] at beyond
      omega

private theorem offset_of_getElem? (found : starts[k]? = some b) (length : Nat) :
    IndexedHandler.offset starts.toArray length k = .ofNat b := by
  rw [IndexedHandler.offset, List.getElem?_toArray, found]

private theorem Counted.handler_eq (counted : h.Counted starts e) {last : Nat}
    (stop : e.stop.toNat = last + 1) (found : starts[last]? = some b) (length : Nat) :
    e.handler starts.toArray length = { h with stop := .ofNat b } := by
  have positive : e.stop ≠ 0 := by
    intro zero
    rw [zero] at stop
    cases stop
  have before : e.stop.toNat - 1 = last := by omega
  rw [IndexedHandler.handler, if_neg positive, before, offset_of_getElem? counted.start,
    offset_of_getElem? found, offset_of_getElem? counted.target, counted.catchIndex,
    UInt16.ofNat_toNat, UInt16.ofNat_toNat]

theorem Counted.restored (counted : h.Counted l.positions e)
    (listed : Listing.ofCode code = .ok l) :
    h.Restored l (e.handler l.positions.toArray code.size) := by
  obtain ⟨last, b, stop, found, le, beyond⟩ := counted.stop
  have ascending := Listing.ascending_positions listed
  have exact_b : (UInt16.ofNat b).toNat = b :=
    UInt16.toNat_ofNat_of_lt' (Nat.lt_of_le_of_lt le h.stop.toNat_lt)
  rw [counted.handler_eq stop found]
  refine ⟨rfl, rfl, rfl, ?_, ?_, ?_⟩
  · change l.isStart (UInt16.ofNat b).toNat
    rw [exact_b, ← Listing.mem_positions listed]
    exact List.mem_of_getElem? found
  · change (UInt16.ofNat b).toNat ≤ _
    rwa [exact_b]
  · intro c low start
    change c ≤ (UInt16.ofNat b).toNat
    rw [exact_b]
    obtain ⟨k, at_k⟩ := List.getElem?_of_mem ((Listing.mem_positions listed).2 start)
    have early : k ≤ last := by
      by_contra past
      have := beyond k (Nat.lt_of_not_le past) c at_k
      omega
    have counted_b := (lt_countP_iff ascending found).2 (Nat.le_refl b)
    exact (lt_countP_iff ascending at_k).1 (Nat.lt_of_le_of_lt early counted_b)

/-- Nothing is lost just in case the end is the start of an instruction. -/
theorem Restored.eq_iff (restored : h.Restored l h') : h' = h ↔ l.isStart h.stop.toNat := by
  constructor
  · rintro rfl
    exact restored.stop_isStart
  · intro start
    have stop : h'.stop = h.stop := UInt16.toNat.inj
      (Nat.le_antisymm restored.stop_le (restored.greatest _ (Nat.le_refl _) start))
    obtain ⟨start', stop', target', catchIndex'⟩ := h'
    obtain ⟨rfl, rfl, rfl, -, -, -⟩ := restored
    cases stop
    rfl

/-- Code that is protected up to its end comes back without its last instruction. -/
theorem Restored.stop_last (restored : h.Restored l h') (listed : Listing.ofCode code = .ok l)
    (whole : h.stop.toNat = code.size) : l.positions.getLast? = some h'.stop.toNat := by
  have member := (Listing.mem_positions listed).2 restored.stop_isStart
  have ascending := Listing.ascending_positions listed
  cases ends : l.positions.getLast? with
  | none =>
    rw [List.getLast?_eq_none_iff.1 ends] at member
    cases member
  | some last =>
    have lastIn := List.mem_of_getLast? ends
    have inside := Listing.lt_size_of_mem_positions listed lastIn
    have le := restored.greatest last (by omega) ((Listing.mem_positions listed).1 lastIn)
    obtain ⟨before, split⟩ := List.getLast?_eq_some_iff.1 ends
    rw [split] at member ascending
    rcases List.mem_append.1 member with earlier | final
    · have higher := (List.pairwise_append.1 ascending).2.2 _ earlier last List.mem_cons_self
      omega
    · rw [List.mem_singleton.1 final]

end Handler

private theorem exists_mapM_forall₂ {α β : Type} {f : α → Option β} {R : α → β → Prop}
    {items : List α} (each : ∀ a ∈ items, ∃ b, f a = some b ∧ R a b) :
    ∃ results, items.mapM f = some results ∧ List.Forall₂ R items results := by
  induction items with
  | nil => exact ⟨[], rfl, .nil⟩
  | cons a items ih =>
    obtain ⟨⟨b, hb, first⟩, each⟩ := List.forall_mem_cons.1 each
    obtain ⟨results, hresults, others⟩ := ih each
    refine ⟨b :: results, ?_, .cons first others⟩
    rw [List.mapM_cons, hb, hresults]
    rfl

/-- Each entry of an exception table can be counted in instructions, if its protected code and its
handler start at one. Counted so, it comes back to the same start, handler and catch type, and to
the last instruction that starts at or before its end. Therefore it is the same entry again just in
case it ends at the start of an instruction, and if it ends where the code ends, then it comes back
without the last instruction. -/
theorem IndexedHandler.handlers_restored (listed : Listing.ofCode code = .ok l)
    (small : code.size ≤ 65535) {hs : List Handler}
    (placed : ∀ h ∈ hs, l.isStart h.start.toNat ∧ l.isStart h.target.toNat) :
    (∃ entries, hs.mapM (·.indexed? l.positions) = some entries ∧
      List.Forall₂ (Handler.Counted l.positions) hs entries) ∧
    ∀ entries, List.Forall₂ (Handler.Counted l.positions) hs entries →
      List.Forall₂ (fun h h' => h.Restored l h' ∧ (h' = h ↔ l.isStart h.stop.toNat) ∧
        (h.stop.toNat = code.size → l.positions.getLast? = some h'.stop.toNat))
        hs (handlers code entries) := by
  constructor
  · exact exists_mapM_forall₂ fun h hh =>
      Handler.exists_counted listed small (placed h hh).1 (placed h hh).2
  · intro entries all
    have starts : ((Listing.scan code 0).1.map (·.offset)).toArray = l.positions.toArray := by
      rw [Listing.scan_ofCode listed]
      rfl
    rw [handlers, List.forall₂_map_right_iff, starts]
    refine all.imp fun h e counted => ?_
    have restored := counted.restored listed
    exact ⟨restored, restored.eq_iff, restored.stop_last listed⟩

/-- A number that is dropped, an exception that is thrown, and a handler that throws it again. -/
def rethrowCode : Array UInt8 := #[0x10, 0x05, 0x57, 0x01, 0xbf, 0x4b, 0x2a, 0xbf]

def rethrow : Listing :=
  match Listing.ofCode rethrowCode with
  | .ok l => l
  | .error _ => ⟨0, [], #[]⟩

/-- The handlers protect the whole code, a part that ends inside of the first instruction, and the
code before the instruction that throws. -/
def rethrowHandlers : List Handler := [⟨0, 8, 5, 0⟩, ⟨0, 1, 5, 0⟩, ⟨0, 4, 5, 3⟩]

theorem IndexedHandler.handlers_restored_rethrow :
    Listing.ofCode rethrowCode = .ok rethrow ∧ rethrowCode.size ≤ 65535 ∧
    (∀ h ∈ rethrowHandlers, rethrow.isStart h.start.toNat ∧ rethrow.isStart h.target.toNat) ∧
    ∃ entries, rethrowHandlers.mapM (·.indexed? rethrow.positions) = some entries ∧
      handlers rethrowCode entries = [⟨0, 7, 5, 0⟩, ⟨0, 0, 5, 0⟩, ⟨0, 4, 5, 3⟩] ∧
      List.Forall₂ (Handler.Restored rethrow) rethrowHandlers (handlers rethrowCode entries) := by
  have listed : Listing.ofCode rethrowCode = .ok rethrow := by decide +kernel
  have small : rethrowCode.size ≤ 65535 := by decide
  have placed : ∀ h ∈ rethrowHandlers,
      rethrow.isStart h.start.toNat ∧ rethrow.isStart h.target.toNat := by decide +kernel
  have computed : rethrowHandlers.mapM (·.indexed? rethrow.positions) =
      some [⟨0, 7, 4, 0⟩, ⟨0, 1, 4, 0⟩, ⟨0, 4, 4, 3⟩] := by decide +kernel
  obtain ⟨⟨entries, indexed, counted⟩, back⟩ := handlers_restored listed small placed
  cases indexed.symm.trans computed
  refine ⟨listed, small, placed, _, computed, by decide +kernel, ?_⟩
  exact (back _ counted).imp fun h h' restored => restored.1

end ClassVerifier
