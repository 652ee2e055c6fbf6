import ClassVerifier.Proofs.ClassLayout
import Mathlib.Data.List.Chain

/-! The counter of the loop that passes over the constants of a pool. It has sixteen bits, and an
eight-byte constant advances it by two. -/
namespace ClassVerifier.Outline
open Reader (wordBytes)

/-- Constants are passed over one after the other while the counter is below the count and stays
within its sixteen bits. Each of the steps is what the counter advances by. -/
inductive Passes (count : UInt16) : UInt16 → List UInt8 → List UInt16 → UInt16 → List UInt8 → Prop
  | stay {index : UInt16} {bytes : List UInt8} : Passes count index bytes [] index bytes
  | pass {index taken last : UInt16} {bytes middle rest : List UInt8} {steps : List UInt16}
      (below : index < count) (read : skipConstant bytes = .ok (taken, middle))
      (fits : index.toNat + taken.toNat < 65536)
      (onward : Passes count (index + taken) middle steps last rest) :
      Passes count index bytes (taken :: steps) last rest

/-- What the steps come to. -/
def advance (steps : List UInt16) : Nat := (steps.map UInt16.toNat).sum

/-- The values that the counter takes from the given one on. -/
def counters (index : UInt16) : List UInt16 → List UInt16
  | [] => [index]
  | taken :: steps => index :: counters (index + taken) steps

/-- The count is the highest one, and an eight-byte constant stands at the last index. -/
def Overruns (count index : UInt16) (bytes : List UInt8) : Prop :=
  count = 65535 ∧ index = 65534 ∧ ∃ rest, skipConstant bytes = .ok (2, rest)

/-- How the loop over the constants ends from the given counter on: no constant is left to be passed
over, the next one cannot be, or the counter cannot advance by it. -/
inductive Ends (count index : UInt16) (bytes : List UInt8) : Except Defect (List UInt8) → Prop
  | done (reached : count ≤ index) : Ends count index bytes (.ok bytes)
  | stuck {d : Defect} (below : index < count) (unread : skipConstant bytes = .error d)
      (sound : d ≠ .overflow) : Ends count index bytes (.error d)
  | overrun (overruns : Overruns count index bytes) : Ends count index bytes (.error .overflow)

variable {count index last taken : UInt16} {bytes rest : List UInt8} {steps : List UInt16}

theorem Passes.skipConstants_eq (run : Passes count index bytes steps last rest) :
    skipConstants count index bytes = skipConstants count last rest := by
  induction run with
  | stay => rfl
  | pass below read fits onward ih =>
    rw [skipConstants_of_lt below, read]
    exact (if_pos fits).trans ih

theorem taken_of_skipConstant (read : skipConstant bytes = .ok (taken, rest)) :
    taken = 1 ∨ taken = 2 := by
  simp only [skipConstant, Reader.bind_eq_ok, Reader.pure_eq_ok] at read
  obtain ⟨tag, inner, -, ⟨size, n⟩, behind, read, -, -, -, rfl, -⟩ := read
  unfold extent at read
  split at read
  case h_1 =>
    obtain ⟨length, middle, -, read⟩ := Reader.bind_eq_ok.1 read
    cases (Reader.pure_eq_ok.1 read).1
    exact .inl rfl
  case h_10 | h_11 =>
    cases (Reader.pure_eq_ok.1 read).1
    exact .inr rfl
  case h_18 => cases read
  all_goals
    cases (Reader.pure_eq_ok.1 read).1
    exact .inl rfl

/-- A step that would leave the sixteen bits is that of an eight-byte constant at the last index of
a pool with the highest count. -/
private theorem overruns_of_exceeds (below : index < count)
    (read : skipConstant bytes = .ok (taken, rest)) (exceeds : 65536 ≤ index.toNat + taken.toNat) :
    Overruns count index bytes := by
  have bound := count.toNat_lt
  rw [UInt16.lt_iff_toNat_lt] at below
  rcases taken_of_skipConstant read with rfl | rfl
  · have one : (1 : UInt16).toNat = 1 := rfl
    omega
  · have two : (2 : UInt16).toNat = 2 := rfl
    refine ⟨UInt16.toNat.inj ?_, UInt16.toNat.inj ?_, rest, read⟩
    · change _ = 65535
      omega
    · change _ = 65534
      omega

/-- The reader does not break down, whatever it reads. -/
def Sturdy {α : Type} (x : OutlineReader α) : Prop :=
  ∀ bytes d, x bytes = .error d → d ≠ .overflow

namespace Sturdy
variable {α β : Type}

theorem pure (a : α) : Sturdy (Pure.pure a) := nofun

theorem bind {x : OutlineReader α} {f : α → OutlineReader β} (hx : Sturdy x)
    (hf : ∀ a, Sturdy (f a)) : Sturdy (x >>= f) := by
  intro bytes d refused
  simp only [Bind.bind, Reader.bind] at refused
  split at refused
  · exact hf _ _ d refused
  · next d' first =>
    cases refused
    exact hx bytes d first

theorem byte : Sturdy (Reader.byte .endInNumber) := by
  intro bytes d refused
  cases bytes with
  | nil =>
    cases refused
    nofun
  | cons => cases refused

theorem word : Sturdy (Reader.word .endInNumber) := by
  intro bytes d refused
  unfold Reader.word at refused
  split at refused
  · cases refused
  · cases refused
    nofun

theorem long : Sturdy (Reader.long .endInNumber) := word.bind fun _ => word.bind fun _ => pure _

theorem skip (count : Nat) : Sturdy (Outline.skip count) := by
  refine bind (fun bytes d refused => ?_) fun _ => pure _
  unfold Reader.take at refused
  dsimp only at refused
  split at refused
  · cases refused
  · cases refused
    nofun

theorem timesGo {x : OutlineReader α} (hx : Sturdy x) (count : Nat) (before : List α) :
    Sturdy (Reader.times.go x count before) := by
  induction count generalizing before with
  | zero => exact pure _
  | succ count ih =>
    intro bytes d refused
    unfold Reader.times.go at refused
    split at refused
    · exact ih _ _ d refused
    · next d' first =>
      cases refused
      exact hx bytes d first

theorem times {x : OutlineReader α} (hx : Sturdy x) (count : Nat) :
    Sturdy (Reader.times count x) := hx.timesGo count []

end Sturdy

private theorem sturdy_extent (tag : UInt8) : Sturdy (extent tag) := by
  unfold extent
  split
  case h_1 => exact Sturdy.word.bind fun _ => .pure _
  case h_18 =>
    intro bytes d refused
    cases refused
    nofun
  all_goals exact .pure _

theorem sturdy_skipConstant : Sturdy skipConstant :=
  .bind .byte fun tag => (sturdy_extent tag).bind fun e => (Sturdy.skip e.1).bind fun _ => .pure _

private theorem sturdy_skipAttribute : Sturdy skipAttribute :=
  (Sturdy.skip 2).bind fun _ => Sturdy.long.bind fun length => .skip length

private theorem sturdy_skipField : Sturdy skipField :=
  (Sturdy.skip 6).bind fun _ => Sturdy.word.bind fun count =>
    (sturdy_skipAttribute.times count.toNat).bind fun _ => .pure _

private theorem sturdy_attributeBytes : Sturdy attributeBytes := by
  have header : Sturdy attributeHeader :=
    Sturdy.word.bind fun _ => Sturdy.long.bind fun length => (Sturdy.skip length).bind fun _ =>
      .pure _
  intro bytes d refused
  rw [attributeBytes_eq] at refused
  cases read : attributeHeader bytes with
  | ok value =>
    rw [read] at refused
    cases refused
  | error d' =>
    rw [read] at refused
    cases refused
    exact header bytes d read

private theorem sturdy_lastCode (pool : ConstantPool) (count : Nat) (found : Option (List UInt8)) :
    Sturdy (lastCode pool count found) := by
  induction count generalizing found with
  | zero => exact .pure _
  | succ count ih => exact sturdy_attributeBytes.bind fun _ => ih _

private theorem sturdy_method (pool : ConstantPool) : Sturdy (method pool) :=
  (Sturdy.skip 6).bind fun _ => Sturdy.word.bind fun count => sturdy_lastCode pool count.toNat none

/-- Passes over what lies between the constants and the methods. -/
private def skipFields : OutlineReader Unit := do
  skip 6
  skip (2 * (← Reader.word .endInNumber).toNat)
  let _ ← Reader.times (← Reader.word .endInNumber).toNat skipField

private theorem sturdy_skipFields : Sturdy skipFields :=
  (Sturdy.skip 6).bind fun _ => Sturdy.word.bind fun _ => (Sturdy.skip _).bind fun _ =>
    Sturdy.word.bind fun _ => (sturdy_skipField.times _).bind fun _ => .pure _

/-- The attributes with the bodies, behind the constants. -/
private def bodies (pool : ConstantPool) : OutlineReader (List (Option (List UInt8))) := do
  skipFields
  Reader.times (← Reader.word .endInNumber).toNat (method pool)

private theorem sturdy_bodies (pool : ConstantPool) : Sturdy (bodies pool) :=
  sturdy_skipFields.bind fun _ => Sturdy.word.bind fun count =>
    (sturdy_method pool).times count.toNat

private theorem skipToMethods_eq (count : UInt16) {header : List UInt8} (start : header.length = 8)
    (bytes : List UInt8) : skipToMethods (header ++ (wordBytes count ++ bytes)) =
      (passConstants count 1 >>= fun _ => skipFields) bytes := by
  have skipped : skip 8 (header ++ (wordBytes count ++ bytes)) =
      .ok ((), wordBytes count ++ bytes) :=
    Reader.bind_of_ok (Reader.take_eq_ok.2 ⟨start, rfl⟩)
  have counted : Reader.word Defect.endInNumber (wordBytes count ++ bytes) = .ok (count, bytes) :=
    (Reader.Reads.word _ count) bytes
  exact (Reader.bind_of_ok skipped).trans (Reader.bind_of_ok counted)

/-- Looking for bodies breaks down only in the loop over the constants. -/
theorem codeAttributes_eq_overflow_iff (pool : ConstantPool) (count : UInt16)
    {header : List UInt8} (start : header.length = 8) (bytes : List UInt8) :
    codeAttributes pool (header ++ (wordBytes count ++ bytes)) = .error .overflow ↔
      skipConstants count 1 bytes = .error .overflow := by
  have front := skipToMethods_eq count start bytes
  cases loop : skipConstants count 1 bytes with
  | error d =>
    have stuck : passConstants count 1 bytes = .error d := by
      rw [passConstants, loop]
      rfl
    have all : codeAttributes pool (header ++ (wordBytes count ++ bytes)) = .error d :=
      congrArg (Except.map Prod.fst)
        (Reader.bind_of_error (front.trans (Reader.bind_of_error stuck)))
    rw [all, Except.error.injEq, Except.error.injEq]
  | ok rest =>
    have passed : passConstants count 1 bytes = .ok ((), rest) := by
      rw [passConstants, loop]
      rfl
    have all : codeAttributes pool (header ++ (wordBytes count ++ bytes)) =
        (bodies pool rest).map Prod.fst := by
      have reach := front.trans (Reader.bind_of_ok passed)
      refine congrArg (Except.map Prod.fst) ?_
      simp only [bodies, Bind.bind, Reader.bind] at reach ⊢
      rw [reach]
      rfl
    rw [all]
    refine iff_of_false (fun broken => ?_) fun loop => by cases loop
    cases read : bodies pool rest with
    | ok value =>
      rw [read] at broken
      cases broken
    | error d =>
      rw [read] at broken
      cases broken
      exact sturdy_bodies pool rest _ read rfl

/-- The loop ends, since no constant is without bytes. -/
theorem exists_run (count index : UInt16) (bytes : List UInt8) :
    ∃ steps last rest, Passes count index bytes steps last rest ∧
      Ends count last rest (skipConstants count index bytes) := by
  fun_induction skipConstants count index bytes with
  | case1 index bytes below taken middle read fits ih =>
    obtain ⟨steps, last, rest, run, ends⟩ := ih
    exact ⟨taken :: steps, last, rest, .pass below read fits run, ends⟩
  | case2 index bytes below taken middle read exceeds =>
    have overruns := overruns_of_exceeds below read (Nat.le_of_not_lt exceeds)
    exact ⟨[], index, bytes, .stay, .overrun overruns⟩
  | case3 index bytes below d read =>
    exact ⟨[], index, bytes, .stay, .stuck below read (sturdy_skipConstant bytes d read)⟩
  | case4 index bytes reached => exact ⟨[], index, bytes, .stay, .done (UInt16.not_lt.1 reached)⟩

private theorem toNat_step (fits : index.toNat + taken.toNat < 65536) :
    (index + taken).toNat = index.toNat + taken.toNat := by
  rw [UInt16.toNat_add, Nat.mod_eq_of_lt fits]

private theorem positive_of_skipConstant (read : skipConstant bytes = .ok (taken, rest)) :
    0 < taken.toNat := by
  rcases taken_of_skipConstant read with rfl | rfl <;> decide

private theorem advance_cons (taken : UInt16) (steps : List UInt16) :
    advance (taken :: steps) = taken.toNat + advance steps := List.sum_cons

namespace Passes

/-- The counter is the sum of the steps. -/
theorem toNat_last (run : Passes count index bytes steps last rest) :
    last.toNat = index.toNat + advance steps := by
  induction run with
  | stay => rfl
  | pass below read fits onward ih => rw [ih, toNat_step fits, advance_cons, Nat.add_assoc]

/-- Every step advances the counter, which is below the count before it. -/
theorem length_le (run : Passes count index bytes steps last rest) :
    steps.length ≤ count.toNat - index.toNat := by
  induction run with
  | stay => exact Nat.zero_le _
  | pass below read fits onward ih =>
    have positive := positive_of_skipConstant read
    rw [toNat_step fits] at ih
    rw [UInt16.lt_iff_toNat_lt] at below
    rw [List.length_cons]
    omega

theorem counters_ascend (run : Passes count index bytes steps last rest) :
    (counters index steps).IsChain (· < ·) := by
  induction run with
  | stay => exact .singleton _
  | @pass index taken last bytes middle rest steps below read fits onward ih =>
    have positive := positive_of_skipConstant read
    have step : (index + taken).toNat = index.toNat + taken.toNat := toNat_step fits
    have head : (counters (index + taken) steps).head? = some (index + taken) := by
      cases steps <;> rfl
    rw [counters, List.isChain_cons, head]
    refine ⟨fun next hnext => ?_, ih⟩
    cases hnext
    rw [UInt16.lt_iff_toNat_lt]
    omega

end Passes

theorem Ends.eq_overflow_iff {result : Except Defect (List UInt8)}
    (ends : Ends count index bytes result) :
    result = .error .overflow ↔ Overruns count index bytes := by
  cases ends with
  | done reached =>
    refine iff_of_false nofun ?_
    rintro ⟨rfl, rfl, _⟩
    exact absurd reached (by decide)
  | stuck below unread sound =>
    refine iff_of_false (fun overflow => sound (Except.error.inj overflow)) ?_
    rintro ⟨_, _, _, read⟩
    cases unread.symm.trans read
  | overrun overruns => exact iff_of_true rfl overruns

/-- The loop over the constants passes over fewer of them than the count says, each of them raises
the counter, and the counter is the sum of these steps. It ends where the counter has come to the
count or a constant cannot be passed over, and breaks down only at an eight-byte constant that
stands at the last index of a pool with the highest count. Nothing else in a file with these
constants makes looking for the bodies break down. -/
theorem counter_exact (count : UInt16) (bytes : List UInt8) :
    ∃ steps last rest, Passes count 1 bytes steps last rest ∧
      (counters 1 steps).IsChain (· < ·) ∧ last.toNat = 1 + advance steps ∧
      steps.length ≤ count.toNat - 1 ∧
      Ends count last rest (skipConstants count 1 bytes) ∧
      (skipConstants count 1 bytes = .error .overflow ↔ Overruns count last rest) ∧
      ∀ (pool : ConstantPool) (header : Vector UInt8 8),
        codeAttributes pool (header.toList ++ (wordBytes count ++ bytes)) = .error .overflow ↔
          Overruns count last rest := by
  obtain ⟨steps, last, rest, run, ends⟩ := exists_run count 1 bytes
  have breaks := ends.eq_overflow_iff
  refine ⟨steps, last, rest, run, run.counters_ascend, run.toNat_last, run.length_le, ends, breaks,
    fun pool header => ?_⟩
  rw [codeAttributes_eq_overflow_iff pool count header.length_toList bytes, breaks]

/-- Constants that take one index each advance the counter by their number. -/
private theorem passes_replicate {n : Nat} {c : ConstantLayout} (single : c.width = 1)
    (inside : index.toNat + n ≤ count.toNat) (rest : List UInt8) :
    Passes count index ((List.replicate n c).flatMap ConstantLayout.bytes ++ rest)
      (List.replicate n 1) (index + .ofNat n) rest := by
  induction n generalizing index with
  | zero =>
    have same : index + .ofNat 0 = index := UInt16.add_zero index
    rw [same]
    exact .stay
  | succ n ih =>
    have bound := count.toNat_lt
    have below : index < count := by
      rw [UInt16.lt_iff_toNat_lt]
      omega
    have one : (1 : UInt16).toNat = 1 := rfl
    have fits : index.toNat + (1 : UInt16).toNat < 65536 := by omega
    have next : (index + 1).toNat = index.toNat + 1 := toNat_step fits
    have read := (skips_constant c).reads ((List.replicate n c).flatMap ConstantLayout.bytes ++ rest)
    rw [single] at read
    have same : index + 1 + .ofNat n = index + .ofNat (n + 1) := by
      rw [UInt16.ofNat_add, UInt16.add_assoc, UInt16.add_comm 1]
      rfl
    rw [List.replicate_succ, List.replicate_succ, List.flatMap_cons, List.append_assoc, ← same]
    exact .pass below read fits (ih (by omega))

/-- The constants of a pool with the highest count, the last one of eight bytes. -/
def fullConstants : List ConstantLayout := List.replicate 65533 (.classRef 1) ++ [.long 0]

/-- What stands behind the constants: a class without members. -/
def fullEnd : List UInt8 := [0x00, 0x21, 0, 1, 0, 0, 0, 0, 0, 0, 0, 0]

def fullFront : List UInt8 := [0xca, 0xfe, 0xba, 0xbe, 0, 0, 0, 52, 0xff, 0xff]

private theorem passes_full :
    Passes 65535 1 (fullConstants.flatMap ConstantLayout.bytes ++ fullEnd)
      (List.replicate 65533 1) 65534 ((ConstantLayout.long 0).bytes ++ fullEnd) := by
  rw [fullConstants, List.flatMap_append, List.flatMap_singleton, List.append_assoc]
  exact passes_replicate rfl (by decide) _

/-- The counter cannot pass over an eight-byte constant at the last index of a full pool, and
looking for the bodies of the methods breaks down. -/
theorem counter_overflows_full :
    Passes 65535 1 (fullConstants.flatMap ConstantLayout.bytes ++ fullEnd)
      (List.replicate 65533 1) 65534 ((ConstantLayout.long 0).bytes ++ fullEnd) ∧
    skipConstant ((ConstantLayout.long 0).bytes ++ fullEnd) = .ok (2, fullEnd) ∧
    65535 < (65534 : UInt16).toNat + (2 : UInt16).toNat ∧
    codeAttributes (.ofList [])
      (fullFront ++ (fullConstants.flatMap ConstantLayout.bytes ++ fullEnd)) =
        .error .overflow := by
  have read := (skips_constant (.long 0)).reads fullEnd
  refine ⟨passes_full, read, by decide, ?_⟩
  have broken : skipConstants 65535 1 (fullConstants.flatMap ConstantLayout.bytes ++ fullEnd) =
      .error .overflow := by
    rw [passes_full.skipConstants_eq, skipConstants_of_lt (by decide), read]
    rfl
  generalize fullConstants.flatMap ConstantLayout.bytes ++ fullEnd = behind at broken
  have start : (fullFront.take 8).length = 8 := rfl
  exact (codeAttributes_eq_overflow_iff (.ofList []) 65535 start behind).2 broken

end ClassVerifier.Outline
