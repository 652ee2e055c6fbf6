import ClassVerifier.Cause
import ClassVerifier.Instruction.Listing

/-! Whether code can complete without throwing: some way through it reaches a return, a subroutine
instruction, or a place where no instruction starts. -/
namespace ClassVerifier.Listing

/-- The offset that a branch leads to, if an instruction starts there. -/
def start? (l : Listing) (target : Int) : Option Nat := (l.target? target).map fun _ => target.toNat

/-- Where control goes after an instruction that does not throw, the place to go on from at once
first. There is nothing if it may leave the method or a branch leads to no instruction. -/
def onward? (l : Listing) (i : Located) : Option (List Nat) :=
  match i.instruction with
  | .throw => some []
  | .returnValue _ | .returnVoid | .subroutine .. => none
  | .jump target => (l.start? target).map ([·])
  | .branch _ target => (l.start? target).map ([i.next, ·])
  | .switch table => (table.targets.mapM l.start?).map List.reverse
  | _ => some [i.next]

private theorem count_visit {n b : Nat} {visited : Vector Bool n} (h : b < n)
    (hv : visited[b] = false) : (visited.set b true).count false < visited.count false := by
  have hm : 0 < visited.count false := Vector.count_pos_iff.2 (hv ▸ Vector.getElem_mem h)
  have hset : (visited.set b true).count false = visited.count false - 1 := by
    rw [Vector.count_set, hv]
    rfl
  omega

/-- Follows every pending offset that was not visited, until all ways end in a throw or in visited
code, or one of them completes. -/
def explore (l : Listing) (code : Array UInt8) (visited : Vector Bool code.size)
    (pending : List Nat) : Except Cause Bool :=
  match pending with
  | [] => .ok true
  | b :: more =>
    if _h : b < code.size then
      match Instruction.decode? code b with
      | none => .error (.illegalInstruction b)
      | some i =>
        if _hv : visited[b] then explore l code visited more
        else
          match l.onward? i with
          | none => .ok false
          | some onward => explore l code (visited.set b true) (onward ++ more)
    else .ok false
termination_by (visited.count false, pending.length)
decreasing_by
  · exact Prod.Lex.right _ (Nat.lt_succ_self _)
  · exact Prod.Lex.left _ _ (count_visit _ (Bool.eq_false_iff.2 ‹_›))

/-- Every way from the offset on ends in a throw or goes round in code already visited. -/
def endsInThrow (l : Listing) (code : Array UInt8) (start : Nat) : Except Cause Bool :=
  l.explore code (Vector.replicate code.size false) [start]

end ClassVerifier.Listing
