import ClassVerifier.Proofs.ControlFlow
import ClassVerifier.Proofs.ExpectedFaults
import ClassVerifier.Proofs.FrameRepresentation
import ClassVerifier.Proofs.SessionAnswers

/-! Verification does not break down. As long as the resolver answers, every read is in range, so
no method is reported for a failure of the verifier itself. -/
namespace ClassVerifier
variable {r resolver : Resolver} {c : ClassModel} {method : Method} {code : Code} {m : Body}
  {initial f : Frame} {s : Session} {failure : Failure}

/-- A cause that can be given is not a breakdown. -/
theorem Cause.Possible.ne_internal {cause : Cause} (h : cause.Possible) (message : String) :
    cause ≠ .internal message := by
  rintro rfl
  exact h

/-- Only a resolver that breaks down makes a method crash. -/
theorem Method.verify_ne_crashed (answers : ∀ name message, r name ≠ .broken message)
    (message : String) : (method.verify c).run r ≠ .error (.crashed message) := by
  intro h
  rcases Method.verify_error h with ⟨name, broken⟩ | ⟨_, h⟩
  · exact answers name message broken
  · cases h

theorem Method.ne_internal_of_verify (answers : ∀ name message, r name ≠ .broken message)
    {fault : Fault} (h : (method.verify c).run r = .error fault) (className signature : String)
    (message : String) : (fault.toFailure className signature).cause ≠ .internal message := by
  cases fault with
  | crashed reason => exact absurd h (Method.verify_ne_crashed answers reason)
  | rejected offset cause =>
    rcases Method.verify_error h with possible | ⟨n, h⟩
    · exact Cause.Possible.ne_internal possible message
    · cases h
      nofun

namespace Verifier

theorem verifyMethod_ne_internal (answers : ∀ name message, resolver name ≠ .broken message)
    (h : (verifyMethod resolver c method s).1 = some failure) (message : String) :
    failure.cause ≠ .internal message := by
  unfold verifyMethod at h
  split at h
  · cases h
  · split at h
    · cases h
    · next fault _ handled =>
      cases h
      have run := congrArg Prod.fst handled
      rw [Session.handle_fst] at run
      refine Method.ne_internal_of_verify (Resolver.within_answers ?_) run _ _ message
      exact fun name reason broken => answers name reason (Session.broken_of_answers broken)

theorem verifyMethods_ne_internal (answers : ∀ name message, resolver name ≠ .broken message)
    {methods : List Method} (h : failure ∈ (verifyMethods resolver c methods s).1)
    (message : String) : failure.cause ≠ .internal message := by
  induction methods generalizing s with
  | nil => cases h
  | cons method methods ih =>
    rcases List.mem_append.1 h with h | h
    · exact verifyMethod_ne_internal answers (Option.mem_toList.1 h) message
    · exact ih h

end Verifier

/-- What the accesses to the locals and the stack of a frame rely on: as many locals as the method
declares, no more of them in use, no value split by the end of those in use, and no deeper a stack
than declared. -/
structure Frame.InRange (code : Code) (f : Frame) : Prop where
  size_eq : f.locals.size = code.maxLocals.toNat
  used_le : f.used ≤ f.locals.size
  used_paired : Paired f.usedLocals
  depth_le : f.stack.depth ≤ code.maxStack.toNat

theorem Code.Prepared.inRange (p : code.Prepared r c method m initial)
    (h : m.surroundings.Represents f) : f.InRange code := by
  have size : f.locals.size = f.maxLocals := h.regular.size_eq
  rw [p.surroundings_eq] at h
  exact {
    size_eq := size.trans h.maxLocals_eq
    used_le := size ▸ h.regular.used_le
    used_paired := h.wellFormed.paired_usedLocals
    depth_le := Nat.le_trans h.wellFormed.fits (Nat.le_of_eq h.maxStack_eq) }

/-- With a resolver that always answers, verifying a method comes to an end without a breakdown, and
none is ever reported, whatever has been remembered before. Every operand that an instruction's
length leaves room for is there to be read, the instructions found by their offset have a place
among the visited ones, and all frames are in range: those recorded, those in front of an
instruction and those behind one. -/
theorem no_internal_failure (answers : ∀ name message, resolver name ≠ .broken message) :
    (∀ message, (method.verify c).run (resolver.within c) ≠ .error (.crashed message)) ∧
    (∀ s failure, (Verifier.verifyMethod resolver c method s).1 = some failure →
      ∀ message, failure.cause ≠ .internal message) ∧
    (∀ methods s, ∀ failure ∈ (Verifier.verifyMethods resolver c methods s).1,
      ∀ message, failure.cause ≠ .internal message) ∧
    ∀ code, method.code = some code →
      (∀ b n, Instruction.announced? code.bytes b = some n → b + n ≤ code.bytes.size →
        ∃ i, Instruction.decode? code.bytes b = some i ∧ i.length = n) ∧
      ∀ m initial, (code.prepare c method).run (resolver.within c) = .ok (m, initial) →
        (∀ target i, m.listing.target? target = some i → i.offset < m.listing.length) ∧
        (∀ f ∈ m.stackMap.frames.toList, f.InRange code) ∧
        (∀ b, ∀ f ∈ method.framesAt resolver c b, f.InRange code) ∧
        ∀ b q, m.Advances (resolver.within c) 0 ⟨initial, m.stackMap.frames.toList, false⟩ b q →
          q.frame.InRange code := by
  refine ⟨Method.verify_ne_crashed (Resolver.within_answers answers), ?_, ?_, ?_⟩
  · exact fun s failure h => Verifier.verifyMethod_ne_internal answers h
  · exact fun methods s failure h => Verifier.verifyMethods_ne_internal answers h
  · intro code body
    refine ⟨fun b n announced room => Instruction.decode?_length_iff.2 ⟨announced, room⟩, ?_⟩
    intro m initial prepared
    have p := Code.prepare_ok prepared
    refine ⟨fun target i found => ?_, fun f hf => p.inRange (p.represents_recorded f hf),
      fun b f hf => p.inRange (Code.Prepared.represents_framesAt body prepared hf), ?_⟩
    · unfold Listing.target? at found
      split at found
      · cases found
      · obtain ⟨mem, _⟩ := (Listing.at?_eq_some_iff p.listing_eq).1 found
        rw [Listing.length_ofCode p.listing_eq]
        exact ((Listing.covers_ofCode p.listing_eq).mem mem).2.2
    · exact fun b q advances => p.inRange (p.inStep advances).represented

/-- Records a frame with two locals less, although there is one only, which takes two slots. -/
def chopping : Method := ⟨0x0008, "chopping", "(J)V", some {
  maxStack := 0
  maxLocals := 2
  bytes := #[0x00, 0xb1]
  stackMap := some [0, 1, 249, 0, 1] }⟩

def chopper : ClassModel where
  version := 52
  access := 0x0021
  name := "Chopper"
  superclass := some ClassName.object
  methods := [chopping]

/-- The frame that cannot be chopped is reported as such. -/
theorem no_internal_failure_chopping :
    (∀ name message, (fun _ => .unknown : Resolver) name ≠ .broken message) ∧
      ∃ failure, (Verifier.verifyMethod (fun _ => .unknown) chopper chopping {}).1 = some failure ∧
        failure.cause = .stackMapFormat "chop frame removes 2 locals" ∧
        ∀ message, failure.cause ≠ .internal message := by
  have answers : ∀ name message, (fun _ => .unknown : Resolver) name ≠ .broken message := nofun
  have reported : (Verifier.verifyMethod (fun _ => .unknown) chopper chopping {}).1 =
      some ⟨"Chopper", some "chopping(J)V", none,
        .stackMapFormat "chop frame removes 2 locals"⟩ := by
    decide +kernel
  refine ⟨answers, _, reported, rfl, ?_⟩
  exact (no_internal_failure answers).2.1 {} _ reported

end ClassVerifier
