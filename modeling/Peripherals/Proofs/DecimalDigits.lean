import Mathlib.Data.List.Induction
import Peripherals.Driver.Serial
import Peripherals.Proofs.Outcomes

/-! # Decimal digits

A number is printed by way of a buffer of ten cells, which takes its digits from
the lowest one on. No word has more than ten digits, so the buffer is never
left, and what it holds, read backwards, is the number in decimal. That text has
no leading zero and reads back as the number, so no two numbers share one. -/

namespace Peripherals

namespace Text

variable {n : Word}

/-! ## The number in decimal, digit by digit -/

/-- The byte for a digit below ten. -/
theorem digitChar_byte {d : Nat} (small : d < 10) :
    BitVec.ofNat 8 (Nat.digitChar d).toNat = BitVec.ofNat 8 (0x30 + d) := by
  have each : ∀ d : Fin 10, BitVec.ofNat 8 (Nat.digitChar d).toNat = BitVec.ofNat 8 (0x30 + d) := by
    decide
  exact each ⟨d, small⟩

/-- The byte for the lowest digit of a number. -/
def lowestDigit (n : Word) : Byte := 0x30 + (n % 10).setWidth 8

theorem lowestDigit_eq (n : Word) : lowestDigit n = BitVec.ofNat 8 (0x30 + n.toNat % 10) := by
  apply BitVec.eq_of_toNat_eq
  simp only [lowestDigit, BitVec.toNat_add, BitVec.toNat_setWidth, BitVec.toNat_umod,
    BitVec.toNat_ofNat, BitVec.reduceToNat]
  omega

theorem toNat_lowestDigit (n : Word) : (lowestDigit n).toNat = 0x30 + n.toNat % 10 := by
  rw [lowestDigit_eq, BitVec.toNat_ofNat]
  omega

theorem toNat_tenth (n : Word) : (n / 10).toNat = n.toNat / 10 := by
  rw [BitVec.toNat_udiv]
  rfl

theorem tenth_ne_zero (many : 10 ≤ n.toNat) : n / 10 ≠ 0 := by
  intro zero
  have none := congrArg BitVec.toNat zero
  rw [toNat_tenth] at none
  change _ = 0 at none
  omega

theorem decimal_of_lt (small : n.toNat < 10) : decimal n = [lowestDigit n] := by
  rw [decimal, digits, Nat.toDigits_of_lt_base small, List.map_singleton, digitChar_byte small,
    lowestDigit_eq, Nat.mod_eq_of_lt small]

/-- From ten on, the lowest digit stands behind those of the tenth. -/
theorem decimal_of_le (large : 10 ≤ n.toNat) :
    decimal n = decimal (n / 10) ++ [lowestDigit n] := by
  have small : n.toNat % 10 < 10 := Nat.mod_lt _ (by decide)
  rw [decimal, digits, Nat.toDigits_of_base_le (by decide) large, List.map_append,
    List.map_singleton, digitChar_byte small, lowestDigit_eq, decimal, digits, toNat_tenth]

/-- Induction along the digits of a number. -/
theorem digitInduction {motive : Word → Prop} (small : ∀ n : Word, n.toNat < 10 → motive n)
    (large : ∀ n : Word, 10 ≤ n.toNat → motive (n / 10) → motive n) (n : Word) : motive n := by
  by_cases few : n.toNat < 10
  · exact small n few
  · have less : (n / 10).toNat < n.toNat := by
      rw [toNat_tenth]
      omega
    exact large n (Nat.le_of_not_lt few) (digitInduction small large (n / 10))
termination_by n.toNat

/-! ## Canonical digits -/

/-- The number that a list of digits stands for in base ten. -/
def readDecimal (digits : List Byte) : Nat :=
  digits.foldl (fun read digit => 10 * read + (digit.toNat - 0x30)) 0

/-- A byte is one of the ten decimal digits. -/
def IsDigit (byte : Byte) : Prop := 0x30 ≤ byte.toNat ∧ byte.toNat ≤ 0x39

/-- A list of bytes is a word in decimal digits, without leading zeros. -/
structure Canonical (n : Word) (digits : List Byte) : Prop where
  nonempty : digits ≠ []
  ascii : ∀ digit ∈ digits, IsDigit digit
  noLeadingZero : n ≠ 0 → digits.head? ≠ some 0x30
  zero : n = 0 → digits = [0x30]
  short : digits.length ≤ 10
  value : readDecimal digits = n.toNat

theorem decimal_ne_nil (n : Word) : decimal n ≠ [] := by
  simp [decimal, digits]

theorem isDigit_of_mem_decimal (n : Word) : ∀ digit ∈ decimal n, IsDigit digit := by
  have lowest (n : Word) : IsDigit (lowestDigit n) := by
    rw [IsDigit, toNat_lowestDigit]
    omega
  induction n using digitInduction with
  | small n few =>
    rw [decimal_of_lt few]
    exact List.forall_mem_singleton.mpr (lowest n)
  | large n many ih =>
    rw [decimal_of_le many]
    exact List.forall_mem_append.mpr ⟨ih, List.forall_mem_singleton.mpr (lowest n)⟩

theorem head_decimal (positive : n ≠ 0) : (decimal n).head? ≠ some 0x30 := by
  induction n using digitInduction with
  | small n few =>
    rw [decimal_of_lt few]
    intro zero
    have same := congrArg BitVec.toNat (Option.some.inj zero)
    rw [toNat_lowestDigit] at same
    apply positive
    apply BitVec.eq_of_toNat_eq
    change n.toNat = 0
    change _ = 0x30 at same
    omega
  | large n many ih =>
    obtain ⟨first, rest, parts⟩ := List.exists_cons_of_ne_nil (decimal_ne_nil (n / 10))
    rw [parts] at ih
    rw [decimal_of_le many, parts]
    exact ih (tenth_ne_zero many)

/-- The largest word has ten digits. -/
theorem length_decimal_le (n : Word) : (decimal n).length ≤ 10 := by
  rw [decimal, digits, List.length_map, Nat.length_toDigits_le_iff (by decide) (by decide)]
  omega

theorem readDecimal_concat (digits : List Byte) (digit : Byte) :
    readDecimal (digits ++ [digit]) = 10 * readDecimal digits + (digit.toNat - 0x30) :=
  List.foldl_append

theorem readDecimal_decimal (n : Word) : readDecimal (decimal n) = n.toNat := by
  induction n using digitInduction with
  | small n few =>
    rw [decimal_of_lt few, ← List.nil_append [_], readDecimal_concat, toNat_lowestDigit]
    change 10 * 0 + _ = _
    omega
  | large n many ih =>
    rw [decimal_of_le many, readDecimal_concat, ih, toNat_tenth, toNat_lowestDigit]
    omega

theorem decimal_canonical (n : Word) : Canonical n (decimal n) where
  nonempty := decimal_ne_nil n
  ascii := isDigit_of_mem_decimal n
  noLeadingZero := head_decimal
  zero := by
    rintro rfl
    rfl
  short := length_decimal_le n
  value := readDecimal_decimal n

/-- Digits behind a first one that is not zero stand for a positive number. -/
theorem readDecimal_pos {digits : List Byte} (nonempty : digits ≠ [])
    (ascii : ∀ digit ∈ digits, IsDigit digit) (head : digits.head? ≠ some 0x30) :
    0 < readDecimal digits := by
  induction digits using List.reverseRecOn with
  | nil => exact absurd rfl nonempty
  | append_singleton before digit ih =>
    rw [readDecimal_concat]
    cases before with
    | nil =>
      have lowest : IsDigit digit := ascii digit List.mem_cons_self
      have other : digit.toNat ≠ 0x30 := fun same =>
        head (congrArg some (BitVec.eq_of_toNat_eq same))
      rw [IsDigit] at lowest
      omega
    | cons first rest =>
      have more := ih (List.cons_ne_nil first rest)
        (fun digit member => ascii digit (List.mem_append_left _ member)) head
      omega

/-- Digits without a leading zero are those of the number that they stand for. -/
theorem eq_decimal_of_readDecimal {digits : List Byte} (positive : n ≠ 0)
    (ascii : ∀ digit ∈ digits, IsDigit digit) (head : digits.head? ≠ some 0x30)
    (value : readDecimal digits = n.toNat) : digits = decimal n := by
  induction digits using List.reverseRecOn generalizing n with
  | nil => exact absurd (BitVec.eq_of_toNat_eq value.symm) positive
  | append_singleton before digit ih =>
    have lowest : IsDigit digit := ascii digit (List.mem_append_right _ List.mem_cons_self)
    have others : ∀ digit ∈ before, IsDigit digit := fun digit member =>
      ascii digit (List.mem_append_left _ member)
    rw [readDecimal_concat] at value
    rw [IsDigit] at lowest
    have last : digit = lowestDigit n := by
      apply BitVec.eq_of_toNat_eq
      rw [toNat_lowestDigit]
      omega
    cases before with
    | nil =>
      change 10 * 0 + _ = _ at value
      rw [decimal_of_lt (by omega), last, List.nil_append]
    | cons first rest =>
      have positive := readDecimal_pos (List.cons_ne_nil first rest) others head
      have many : 10 ≤ n.toNat := by omega
      have tenth : readDecimal (first :: rest) = (n / 10).toNat := by
        rw [toNat_tenth]
        omega
      rw [decimal_of_le many, last, ih (tenth_ne_zero many) others head tenth]

/-- A word has one canonical form. -/
theorem canonical_iff {digits : List Byte} : Canonical n digits ↔ digits = decimal n := by
  constructor
  · intro canonical
    by_cases zero : n = 0
    · exact (canonical.zero zero).trans ((decimal_canonical n).zero zero).symm
    · exact eq_decimal_of_readDecimal zero canonical.ascii (canonical.noLeadingZero zero)
        canonical.value
  · rintro rfl
    exact decimal_canonical n

theorem decimal_injective {m : Word} (same : decimal m = decimal n) : m = n := by
  apply BitVec.eq_of_toNat_eq
  rw [← readDecimal_decimal m, same, readDecimal_decimal]

/-! ## Digits in the buffer -/

/-- A digit put into a buffer with room stands behind those already there. -/
theorem DigitBuffer.push_eq {buffer : DigitBuffer} (room : buffer.count < 10) (digit : Byte) :
    ∃ after, buffer.push digit = .ok after ∧ after.count = buffer.count + 1 ∧
      after.collected = buffer.collected ++ [digit] := by
  refine ⟨_, dif_pos room, rfl, ?_⟩
  change ((buffer.cells.set buffer.count digit room).toList.take (buffer.count + 1)) =
    buffer.cells.toList.take buffer.count ++ [digit]
  rw [Vector.toList_set, List.take_add_one, List.take_set_of_le (Nat.le_refl _)]
  simp [room]

/-- The lowest digit fits a byte. -/
theorem add_lowestDigit (n : Word) :
    Checked.add 0x30 ((n % 10).setWidth 8 : Byte) = .ok (lowestDigit n) := by
  apply Checked.add_eq_ok
  simp only [BitVec.uaddOverflow, BitVec.toNat_setWidth, BitVec.toNat_umod, BitVec.reduceToNat,
    decide_eq_false_iff_not]
  omega

/-- A digit of a number goes into the buffer, and the tenth of the number is left to collect. -/
theorem collectDigits_step {buffer : DigitBuffer} (positive : n ≠ 0) (room : buffer.count < 10) :
    ∃ middle : DigitBuffer, collectDigits n buffer = collectDigits (n / 10) middle ∧
      middle.count = buffer.count + 1 ∧
      middle.collected = buffer.collected ++ [lowestDigit n] := by
  obtain ⟨middle, pushed, count, collected⟩ := DigitBuffer.push_eq room (lowestDigit n)
  refine ⟨middle, ?_, count, collected⟩
  rw [collectDigits, if_neg positive, add_lowestDigit]
  change (buffer.push (lowestDigit n) >>= _) = _
  rw [pushed]
  rfl

/-- With room for its digits, a number leaves them in the buffer, the lowest one first. -/
theorem collectDigits_eq {buffer : DigitBuffer} (positive : n ≠ 0)
    (room : buffer.count + (decimal n).length ≤ 10) :
    ∃ full, collectDigits n buffer = .ok full ∧
      full.collected = buffer.collected ++ (decimal n).reverse := by
  induction n using digitInduction generalizing buffer with
  | small n few =>
    rw [decimal_of_lt few] at room ⊢
    obtain ⟨full, step, -, collected⟩ := collectDigits_step positive room
    have none : n / 10 = 0 := by
      apply BitVec.eq_of_toNat_eq
      rw [toNat_tenth]
      exact Nat.div_eq_of_lt few
    refine ⟨full, ?_, collected⟩
    rw [step, none, collectDigits, if_pos rfl]
  | large n many ih =>
    rw [decimal_of_le many, List.length_append, List.length_singleton] at room
    have cell : buffer.count < 10 := by omega
    obtain ⟨middle, step, count, collected⟩ := collectDigits_step positive cell
    have place : middle.count + (decimal (n / 10)).length ≤ 10 := by omega
    obtain ⟨full, rest, held⟩ := ih (tenth_ne_zero many) place
    refine ⟨full, step.trans rest, ?_⟩
    rw [held, collected, decimal_of_le many, List.reverse_append, List.append_assoc]
    rfl

/-- The buffer is never left: from empty, it takes every digit of every number. -/
theorem collectDigits_empty (positive : n ≠ 0) :
    ∃ full, collectDigits n .empty = .ok full ∧ full.collected.reverse = decimal n := by
  have room : DigitBuffer.empty.count + (decimal n).length ≤ 10 :=
    (Nat.zero_add _).symm ▸ length_decimal_le n
  obtain ⟨full, returned, collected⟩ := collectDigits_eq positive room
  refine ⟨full, returned, ?_⟩
  rw [collected, List.reverse_append, List.reverse_reverse]
  exact List.append_nil _

end Text

/-- Sending a number in decimal is sending its digits. -/
theorem Serial.sendDecimal_eq {δ : Type} [Target δ] (n : Word) :
    (Serial.sendDecimal n : BusM δ Unit) = Serial.send (Text.decimal n) := by
  by_cases zero : n = 0
  · rw [Serial.sendDecimal, if_pos zero, zero]
    exact (bind_pure_unit).symm
  · obtain ⟨full, collected, digits⟩ := Text.collectDigits_empty zero
    rw [Serial.sendDecimal, if_neg zero, collected, ← digits]
    rfl

end Peripherals
