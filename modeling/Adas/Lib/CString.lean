import Adas.Lib.PyFloat

/-!
C strings and `atoi`.

A string ends before its first zero byte. `atoi` skips white space, takes an
optional sign, and reads digits up to the first byte that is none. `atoi_digits`
is the rule for a string of digits alone. A value outside `int` is undefined in
C; here it is the number itself.
-/

namespace Adas.Lib

/-- The characters of a string in memory. -/
def cString (memory : List UInt8) : List UInt8 := memory.takeWhile (· ≠ 0)

/-- `atoi`. -/
def atoi (memory : List UInt8) : ℤ :=
  let (negative, text) := splitSign ((cString memory).dropWhile isSpace)
  let value : ℤ := number (text.takeWhile isDigit)
  if negative then -value else value

/-- Digits before the first zero byte are all of the string. -/
theorem cString_digits {text : List UInt8} (digits : ∀ b ∈ text, isDigit b = true)
    (rest : List UInt8) : cString (text ++ 0 :: rest) = text := by
  have filled : ∀ b ∈ text, decide (b ≠ 0) = true := fun b mem => by
    simpa using ne_of_test (digits b mem) rfl
  rw [cString, List.takeWhile_append_of_pos filled]
  simp

/-- A terminated string of digits is read as its number. -/
theorem atoi_digits {text : List UInt8} (digits : ∀ b ∈ text, isDigit b = true)
    (rest : List UInt8) : atoi (text ++ 0 :: rest) = number text := by
  have numeric : ∀ b ∈ text, isNumeric b = true :=
    fun b mem => isNumeric_of_isDigit (digits b mem)
  have unspaced : text.dropWhile isSpace = text := by
    cases text with
    | nil => rfl
    | cons b text =>
        have first := isSpace_of_isNumeric (numeric b List.mem_cons_self)
        exact List.dropWhile_cons_of_neg (by simp [first])
  have all : text.takeWhile isDigit = text := List.takeWhile_eq_self_iff.mpr digits
  simp only [atoi, cString_digits digits, unspaced, splitSign_numeric numeric, all]
  rfl

end Adas.Lib
