import Mathlib
import Contrail.Lib.CText

/-! `integerToString` and `stringToInteger` of `base/string_util.h`. A string is its list of
characters. -/
namespace Contrail.Base

/-- `integerToString` of an unsigned number: the decimal digits `operator<<` writes. -/
def integerToString (num : Nat) : List Char := Nat.toDigits 10 num

example : integerToString 4095 = ['4', '0', '9', '5'] := by decide

/-- The digits hold no character but the ten digits. -/
theorem not_mem_integerToString {ch : Char} (other : ∀ d < 10, Nat.digitChar d ≠ ch) (num : Nat) :
    ch ∉ integerToString num :=
  CText.not_mem_toDigits (by decide) other

theorem length_integerToString_le {num k : Nat} (positive : 0 < k) (fits : num < 10 ^ k) :
    (integerToString num).length ≤ k :=
  (Nat.length_toDigits_le_iff (by decide) positive).mpr fits

/-- `stringToInteger` into an unsigned type of `bits` bits: whether `strtoul` read the whole
string, and its value kept in the type. -/
def stringToInteger (bits : Nat) (str : List Char) : Bool × Nat :=
  match CText.strtoul str with
  | (num, endptr) => (endptr.isEmpty, num % 2 ^ bits)

/-- A number of the type reads back from its decimal text. -/
theorem stringToInteger_integerToString {bits num : Nat} (wide : bits ≤ 64) (fits : num < 2 ^ bits) :
    stringToInteger bits (integerToString num) = (true, num) := by
  have small : num ≤ CText.ULONG_MAX := by
    have : 2 ^ bits ≤ 2 ^ 64 := Nat.pow_le_pow_right (by decide) wide
    simp only [CText.ULONG_MAX]
    omega
  have read := CText.strtoul_toDigits small CText.stops_nil
  rw [List.append_nil] at read
  simp [stringToInteger, integerToString, read, Nat.mod_eq_of_lt fits]

end Contrail.Base
