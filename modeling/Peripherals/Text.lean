import Peripherals.Word

/-! # Text as bytes

The bytes of a text and of a number written in decimal or hexadecimal digits, as
they go out on a serial line. -/

namespace Peripherals.Text

/-- The UTF-8 bytes of a text. -/
def bytes (text : String) : List Byte :=
  text.toUTF8.data.toList.map (·.toBitVec)

/-- The digits of a number in a base up to sixteen, without leading zeros. -/
def digits (base n : Nat) : List Byte :=
  (Nat.toDigits base n).map fun digit => BitVec.ofNat 8 digit.toNat

/-- A number in decimal digits. -/
def decimal (n : Word) : List Byte :=
  digits 10 n.toNat

/-- A byte in hexadecimal digits behind `0x`, in lower case. -/
def hexadecimal (n : Byte) : List Byte :=
  bytes "0x" ++ digits 16 n.toNat

/-- Bytes as text, two hexadecimal digits in lower case for each. -/
def hexPairs (bytes : List Byte) : String :=
  String.ofList <| bytes.flatMap fun byte =>
    [Nat.digitChar (byte.toNat / 16), Nat.digitChar (byte.toNat % 16)]

/-! ## Digits collected in a buffer -/

/-- A buffer for the digits of a word, which has at most ten, with the count of those in it. -/
structure DigitBuffer where
  cells : Vector Byte 10
  count : Nat
  fits : count ≤ 10

namespace DigitBuffer

/-- The buffer before the first digit. -/
def empty : DigitBuffer := ⟨.replicate 10 0, 0, Nat.zero_le 10⟩

/-- The digits in a buffer, in the order in which they were put there. -/
def collected (buffer : DigitBuffer) : List Byte :=
  buffer.cells.toList.take buffer.count

/-- Put a digit behind those in the buffer. Behind the last cell there is no place for one. -/
def push (buffer : DigitBuffer) (digit : Byte) : Except Fault DigitBuffer :=
  if room : buffer.count < 10 then
    .ok ⟨buffer.cells.set buffer.count digit room, buffer.count + 1, room⟩
  else
    .error .digitOutOfRange

end DigitBuffer

/-- Put the digits of a number into a buffer, the lowest first. Zero has no digits here. -/
def collectDigits (value : Word) (buffer : DigitBuffer) : Except Fault DigitBuffer :=
  if value = 0 then
    .ok buffer
  else do
    let digit ← Checked.add 0x30 ((value % 10).setWidth 8)
    let buffer ← buffer.push digit
    collectDigits (value / 10) buffer
termination_by value.toNat
decreasing_by
  have positive : value.toNat ≠ 0 := fun zero => by simp_all [BitVec.toNat_eq]
  rw [BitVec.toNat_udiv]
  exact Nat.div_lt_self (Nat.pos_of_ne_zero positive) (by decide)

/-! ## Texts without NUL -/

/-- A text without NUL, which goes out as it is. -/
def Plain (text : String) : Prop :=
  (bytes text).takeWhile (· != 0) = bytes text

instance (text : String) : Decidable (Plain text) :=
  inferInstanceAs (Decidable (_ = _))

/-! ## Texts in parts -/

theorem bytes_append (first second : String) :
    bytes (first ++ second) = bytes first ++ bytes second := by
  simp [bytes, String.toUTF8, String.toByteArray_append, ByteArray.data_append]

/-- Characters up to code 127 take one byte each. -/
theorem bytes_ofList {chars : List Char} (ascii : ∀ c ∈ chars, c.val ≤ 127) :
    bytes (String.ofList chars) = chars.map fun c => BitVec.ofNat 8 c.toNat := by
  have encoded : chars.flatMap String.utf8EncodeChar = chars.map (·.val.toUInt8) := by
    induction chars with
    | nil => rfl
    | cons c rest ih =>
      have single := String.utf8EncodeChar_eq_singleton
        (Char.utf8Size_eq_one_iff.mpr (ascii c List.mem_cons_self))
      rw [List.flatMap_cons, List.map_cons, single,
        ih fun d member => ascii d (List.mem_cons_of_mem c member)]
      rfl
  rw [bytes, String.toUTF8, String.toByteArray_ofList, List.utf8Encode, encoded,
    List.data_toByteArray, List.map_map]
  rfl

/-- A number in decimal digits is the text that shows it. -/
theorem decimal_eq_bytes (n : Word) : decimal n = bytes (toString n.toNat) := by
  have ascii : ∀ c ∈ Nat.toDigits 10 n.toNat, c.val ≤ 127 := by
    intro c member
    have digit := Nat.isDigit_of_mem_toDigits (by decide) (by decide) member
    simp only [Char.isDigit, Bool.and_eq_true, decide_eq_true_eq] at digit
    exact UInt32.le_trans digit.2 (by decide)
  exact (bytes_ofList ascii).symm

end Peripherals.Text
