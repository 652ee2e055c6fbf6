import ClassVerifier.ClassFile.Table
import ClassVerifier.Proofs.ExactReading
import Mathlib.Algebra.GroupWithZero.Nat

/-! Data that is read from all of its bytes and from no fewer: numbers, tables and attributes as a
class file has them. Wherever the bytes are cut off, the reader ends with an error that says so. -/
namespace ClassVerifier

/-- What was found before counts only if nothing is found later. -/
theorem getLast?_filterMap_cons_or {α β : Type} (f : α → Option β) (a : α) (items : List α)
    (before : Option β) :
    ((a :: items).filterMap f).getLast?.or before =
      (items.filterMap f).getLast?.or ((f a).or before) := by
  cases found : f a with
  | none => rw [List.filterMap_cons_none found, Option.none_or]
  | some b =>
    rw [List.filterMap_cons_some found, List.getLast?_cons, Option.some_or]
    cases (items.filterMap f).getLast? <;> rfl

namespace Reader
variable {ε α β γ : Type} {short : ε → Prop}

/-- The bytes are read as the value, whatever follows them, and none of them can be left out: cut
off anywhere, they are refused with an error of the given kind. -/
structure ReadsWhole (short : ε → Prop) (r : Reader ε α) (bytes : List UInt8) (a : α) : Prop where
  reads : Reads r bytes a
  refuses : ∀ n < bytes.length, ∃ e, short e ∧ r (bytes.take n) = .error e

theorem bind_of_ok {x : Reader ε α} {f : α → Reader ε β} {bytes rest : List UInt8} {a : α}
    (h : x bytes = .ok (a, rest)) : (x >>= f) bytes = f a rest := by
  simp only [bind, Reader.bind, h]

theorem bind_of_error {x : Reader ε α} {f : α → Reader ε β} {bytes : List UInt8} {e : ε}
    (h : x bytes = .error e) : (x >>= f) bytes = .error e := by
  simp only [bind, Reader.bind, h]

/-- A number below 2 ^ 32 in four bytes, the highest first. -/
def longBytes (n : Nat) : List UInt8 := wordBytes (.ofNat (n / 65536)) ++ wordBytes (.ofNat n)

/-- A count in two bytes and then the items. -/
def tableBytes (layout : γ → List UInt8) (items : List γ) : List UInt8 :=
  wordBytes (.ofNat items.length) ++ items.flatMap layout

namespace ReadsWhole
variable {x : Reader ε α} {f : α → Reader ε β} {a : α} {b : β} {xs ys : List UInt8}

theorem pure (a : α) : ReadsWhole short (Pure.pure a : Reader ε α) [] a where
  reads := .pure a
  refuses _ h := absurd h (Nat.not_lt_zero _)

/-- A cut falls into the bytes of the first reader, or it leaves them whole and falls into those of
the second. -/
theorem bind (hx : ReadsWhole short x xs a) (hf : ReadsWhole short (f a) ys b) :
    ReadsWhole short (x >>= f) (xs ++ ys) b where
  reads := hx.reads.bind hf.reads
  refuses n inside := by
    rw [List.length_append] at inside
    rcases Nat.lt_or_ge n xs.length with first | second
    · obtain ⟨e, he, cut⟩ := hx.refuses n first
      refine ⟨e, he, ?_⟩
      rw [List.take_append_of_le_length (Nat.le_of_lt first)]
      exact bind_of_error cut
    · obtain ⟨e, he, cut⟩ := hf.refuses (n - xs.length) (by omega)
      refine ⟨e, he, ?_⟩
      rw [List.take_append, List.take_of_length_le second, bind_of_ok (hx.reads _)]
      exact cut

theorem bind_last (hx : ReadsWhole short x xs a) (hf : ReadsWhole short (f a) [] b) :
    ReadsWhole short (x >>= f) xs b :=
  xs.append_nil ▸ hx.bind hf

theorem byte {e : ε} (he : short e) (b : UInt8) : ReadsWhole short (Reader.byte e) [b] b where
  reads := .byte e b
  refuses n inside := by
    obtain rfl : n = 0 := by simpa using inside
    exact ⟨e, he, rfl⟩

theorem word {e : ε} (he : short e) (w : UInt16) :
    ReadsWhole short (Reader.word e) (wordBytes w) w where
  reads := .word e w
  refuses n inside := by
    match n, inside with
    | 0, _ => exact ⟨e, he, rfl⟩
    | 1, _ => exact ⟨e, he, rfl⟩

theorem long {e : ε} (he : short e) {n : Nat} (small : n < 2 ^ 32) :
    ReadsWhole short (Reader.long e) (longBytes n) n := by
  refine .bind (.word he _) (.bind_last (.word he _) ?_)
  have high : (UInt16.ofNat (n / 65536)).toNat = n / 65536 := UInt16.toNat_ofNat_of_lt' (by
    change n / 65536 < 65536
    omega)
  have low : (UInt16.ofNat n).toNat = n % 65536 := UInt16.toNat_ofNat'
  have whole : (UInt16.ofNat (n / 65536)).toNat * 65536 + (UInt16.ofNat n).toNat = n := by
    rw [high, low, Nat.div_add_mod']
  rw [whole]
  exact .pure n

theorem take {e : ε} (he : short e) (bytes : List UInt8) :
    ReadsWhole short (Reader.take e bytes.length) bytes bytes where
  reads _ := take_eq_ok.2 ⟨rfl, rfl⟩
  refuses n inside := by
    refine ⟨e, he, if_neg ?_⟩
    rw [List.take_take, List.length_take]
    omega

/-- What was read before stands in front of the items, in reverse order. -/
private theorem timesGo {r : Reader ε α} {layout : γ → List UInt8} {value : γ → α} {items : List γ}
    (each : ∀ c ∈ items, ReadsWhole short r (layout c) (value c)) (before : List α) :
    ReadsWhole short (Reader.times.go r items.length before) (items.flatMap layout)
      (before.reverse ++ items.map value) := by
  induction items generalizing before with
  | nil =>
    rw [List.map_nil, List.append_nil]
    exact .pure _
  | cons c items ih =>
    obtain ⟨first, others⟩ := List.forall_mem_cons.1 each
    have step : Reader.times.go r (items.length + 1) before =
        r >>= fun a => Reader.times.go r items.length (a :: before) := by
      funext bytes
      simp only [Reader.times.go, Bind.bind, Reader.bind]
    have rest := ih others (value c :: before)
    rw [List.reverse_cons, List.append_assoc, List.singleton_append] at rest
    rw [List.length_cons, step, List.flatMap_cons, List.map_cons]
    exact first.bind rest

theorem times {r : Reader ε α} {layout : γ → List UInt8} {value : γ → α} {items : List γ}
    (each : ∀ c ∈ items, ReadsWhole short r (layout c) (value c)) :
    ReadsWhole short (Reader.times items.length r) (items.flatMap layout) (items.map value) :=
  timesGo each []

/-- Whatever reads so many items and goes on behind them reads them behind their count. -/
theorem counted {e : ε} (he : short e) {g : Nat → Reader ε β} {layout : γ → List UInt8}
    {items : List γ} (few : items.length < 65536)
    (rest : ReadsWhole short (g items.length) (items.flatMap layout ++ ys) b) :
    ReadsWhole short (Reader.word e >>= fun count => g count.toNat)
      (tableBytes layout items ++ ys) b := by
  rw [tableBytes, List.append_assoc]
  refine .bind (.word he _) ?_
  rw [UInt16.toNat_ofNat_of_lt' few]
  exact rest

theorem counted_last {e : ε} (he : short e) {g : Nat → Reader ε β} {layout : γ → List UInt8}
    {items : List γ} (few : items.length < 65536)
    (rest : ReadsWhole short (g items.length) (items.flatMap layout) b) :
    ReadsWhole short (Reader.word e >>= fun count => g count.toNat) (tableBytes layout items)
      b := by
  rw [← List.append_nil (items.flatMap layout)] at rest
  rw [← List.append_nil (tableBytes layout items)]
  exact .counted he few rest

theorem table {e : ε} (he : short e) {entry : Reader ε α} {layout : γ → List UInt8} {value : γ → α}
    {items : List γ} (few : items.length < 65536)
    (each : ∀ c ∈ items, ReadsWhole short entry (layout c) (value c)) :
    ReadsWhole short (Reader.table e entry) (tableBytes layout items) (items.map value) :=
  .counted_last (g := fun count => Reader.times count entry) he few (.times each)

end ReadsWhole
end Reader

/-- An attribute as it is laid out, with the pool index of its name. -/
structure AttributeLayout where
  name : UInt16
  content : List UInt8
  short : content.length < 2 ^ 32

open Reader (wordBytes longBytes) in
/-- The complete bytes, header included. -/
def AttributeLayout.bytes (a : AttributeLayout) : List UInt8 :=
  wordBytes a.name ++ (longBytes a.content.length ++ a.content)

theorem AttributeLayout.length_bytes (a : AttributeLayout) :
    a.bytes.length = 6 + a.content.length := by
  rw [bytes, List.length_append, List.length_append]
  change 2 + (4 + _) = _
  omega

end ClassVerifier
