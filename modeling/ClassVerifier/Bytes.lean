/-! Reading big-endian data from the front of a list of bytes. -/
namespace ClassVerifier

/-- Reads from the front of the bytes and leaves the rest. -/
abbrev Reader (ε α : Type) := List UInt8 → Except ε (α × List UInt8)

namespace Reader
variable {ε α β : Type}

protected def pure (value : α) : Reader ε α := fun bytes => .ok (value, bytes)

protected def bind (r : Reader ε α) (f : α → Reader ε β) : Reader ε β := fun bytes =>
  match r bytes with
  | .ok (value, rest) => f value rest
  | .error e => .error e

instance : Monad (Reader ε) where
  pure := Reader.pure
  bind := Reader.bind

def fail (e : ε) : Reader ε α := fun _ => .error e

/-- One byte; `short` says that there is none. -/
def byte (short : ε) : Reader ε UInt8
  | [] => .error short
  | b :: rest => .ok (b, rest)

/-- Two bytes. -/
def word (short : ε) : Reader ε UInt16
  | high :: low :: rest => .ok (high.toUInt16 <<< 8 ||| low.toUInt16, rest)
  | _ => .error short

/-- Four bytes as a natural number. -/
def long (short : ε) : Reader ε Nat := do
  let high ← word short
  let low ← word short
  return high.toNat * 65536 + low.toNat

/-- The next bytes, as many as asked for. -/
def take (short : ε) (count : Nat) : Reader ε (List UInt8) := fun bytes =>
  let taken := bytes.take count
  if taken.length = count then .ok (taken, bytes.drop count) else .error short

/-- Reads without moving on. -/
def ahead (r : Reader ε α) : Reader ε α := fun bytes =>
  match r bytes with
  | .ok (value, _) => .ok (value, bytes)
  | .error e => .error e

/-- Reads the same kind of thing several times over. -/
def times (count : Nat) (r : Reader ε α) : Reader ε (List α) := fun bytes =>
  go count [] bytes
where
  /-- The things read so far are kept with the last one first. -/
  go : Nat → List α → Reader ε (List α)
    | 0, before, bytes => .ok (before.reverse, bytes)
    | n + 1, before, bytes =>
      match r bytes with
      | .ok (value, rest) => go n (value :: before) rest
      | .error e => .error e

theorem bind_eq_ok {r : Reader ε α} {f : α → Reader ε β} {bytes rest : List UInt8} {b : β} :
    (r >>= f) bytes = .ok (b, rest) ↔
      ∃ a middle, r bytes = .ok (a, middle) ∧ f a middle = .ok (b, rest) := by
  simp only [bind, Reader.bind]
  rcases r bytes with _ | ⟨a, middle⟩
  · simp
  · simp only [Except.ok.injEq, Prod.mk.injEq]
    exact ⟨fun h => ⟨a, middle, ⟨rfl, rfl⟩, h⟩, by rintro ⟨_, _, ⟨rfl, rfl⟩, h⟩; exact h⟩

theorem pure_eq_ok {a b : α} {bytes rest : List UInt8} :
    (pure a : Reader ε α) bytes = .ok (b, rest) ↔ a = b ∧ bytes = rest := by
  simp [pure, Reader.pure]

theorem byte_eq_ok {short : ε} {b : UInt8} {bytes rest : List UInt8} :
    byte short bytes = .ok (b, rest) ↔ bytes = b :: rest := by
  cases bytes <;> simp [byte]

theorem length_of_word {short : ε} {w : UInt16} {bytes rest : List UInt8}
    (h : word short bytes = .ok (w, rest)) : bytes.length = rest.length + 2 := by
  unfold word at h
  split at h
  · simp only [Except.ok.injEq, Prod.mk.injEq] at h
    simp [h.2]
  · simp at h

theorem take_eq_ok {short : ε} {count : Nat} {taken bytes rest : List UInt8} :
    take short count bytes = .ok (taken, rest) ↔ taken.length = count ∧ bytes = taken ++ rest := by
  simp only [take]
  constructor
  · intro h
    split at h
    · simp only [Except.ok.injEq, Prod.mk.injEq] at h
      obtain ⟨rfl, rfl⟩ := h
      exact ⟨‹_›, (List.take_append_drop count bytes).symm⟩
    · simp at h
  · rintro ⟨rfl, rfl⟩
    simp

end Reader
end ClassVerifier
