import Mathlib.Algebra.Order.Field.Rat
import Mathlib.Data.List.DropRight
import Adas.Lib.Decimal

/-!
Python's `float` of ASCII text.

The grammar is the documented one: white space around an optional sign and
`inf`, `infinity`, `nan` in any case, or a decimal number with an optional point
and an optional exponent, with single underscores allowed between digits.
Anything else is a `ValueError`. Values are exact. `pyFloat_numeric` is the rule
for text of digits and points alone.
-/

namespace Adas.Lib

/-- A float, its value exact. -/
inductive PyFloat where
  | finite (value : ℚ)
  | infinity (negative : Bool)
  | nan
  deriving DecidableEq, Repr

/-- Tab to carriage return, and the space. -/
def isSpace (b : UInt8) : Bool := b == 32 || (9 ≤ b && b ≤ 13)

def strip (text : List UInt8) : List UInt8 := (text.dropWhile isSpace).rdropWhile isSpace

def toLower (b : UInt8) : UInt8 := if 65 ≤ b && b ≤ 90 then b + 32 else b

/-- The optional sign: whether it is a minus, and what follows. -/
def splitSign : List UInt8 → Bool × List UInt8
  | 45 :: text => (true, text)
  | 43 :: text => (false, text)
  | text => (false, text)

/-- `digit (["_"] digit)*`: its digits. -/
def digitPart : List UInt8 → Option (List UInt8)
  | [] => none
  | [d] => if isDigit d then some [d] else none
  | d :: u :: text =>
      if isDigit d then
        if u = 95 then (digitPart text).map (d :: ·) else (digitPart (u :: text)).map (d :: ·)
      else none

/-- `digitpart ["."] | [digitpart] "." digitpart` -/
def mantissa (text : List UInt8) : Option ℚ :=
  match text.takeWhile (· ≠ 46), text.dropWhile (· ≠ 46) with
  | whole, [] => (digitPart whole).map fun w => (number w : ℚ)
  | whole, [_] => (digitPart whole).map fun w => (number w : ℚ)
  | [], _ :: fraction => (digitPart fraction).map fun f => (number f : ℚ) / 10 ^ f.length
  | whole, _ :: fraction =>
      match digitPart whole, digitPart fraction with
      | some w, some f => some ((number (w ++ f) : ℚ) / 10 ^ f.length)
      | _, _ => none

/-- `mantissa [("e" | "E") [sign] digitpart]` -/
def floatNumber (text : List UInt8) : Option ℚ :=
  match text.dropWhile (fun b => b ≠ 101 && b ≠ 69) with
  | [] => mantissa text
  | _ :: exponent =>
      let (negative, digits) := splitSign exponent
      match mantissa (text.takeWhile (fun b => b ≠ 101 && b ≠ 69)), digitPart digits with
      | some m, some e => some (if negative then m / 10 ^ number e else m * 10 ^ number e)
      | _, _ => none

/-- `float(text)`; `none` is a `ValueError`. -/
def pyFloat (text : List UInt8) : Option PyFloat :=
  let (negative, body) := splitSign (strip text)
  let lower := body.map toLower
  if lower = [105, 110, 102] ∨ lower = [105, 110, 102, 105, 110, 105, 116, 121] then
    some (.infinity negative)
  else if lower = [110, 97, 110] then some .nan
  else (floatNumber body).map fun value => .finite (if negative then -value else value)

/-! ### Digits and points -/

/-- A digit or the point. -/
def isNumeric (b : UInt8) : Bool := isDigit b || b == 46

theorem isNumeric_of_isDigit {b : UInt8} (h : isDigit b = true) : isNumeric b = true := by
  simp [isNumeric, h]

theorem isNumeric_iff {b : UInt8} :
    isNumeric b = true ↔ 48 ≤ b.toNat ∧ b.toNat ≤ 57 ∨ b.toNat = 46 := by
  simp [isNumeric, isDigit, UInt8.le_iff_toNat_le, ← UInt8.toNat_inj]

/-- Bytes that a test tells apart. -/
theorem ne_of_test {p : UInt8 → Bool} {b c : UInt8} (h : p b = true) (other : p c = false) :
    b ≠ c := by
  rintro rfl
  rw [h] at other
  cases other

theorem isSpace_of_isNumeric {b : UInt8} (h : isNumeric b = true) : isSpace b = false := by
  rw [isNumeric_iff] at h
  simp only [isSpace, UInt8.le_iff_toNat_le, beq_eq_decide, ← UInt8.toNat_inj, Bool.or_eq_false_iff,
    Bool.and_eq_false_iff, decide_eq_false_iff_not, UInt8.reduceToNat]
  omega

theorem toLower_of_isNumeric {b : UInt8} (h : isNumeric b = true) : toLower b = b := by
  rw [isNumeric_iff] at h
  refine if_neg ?_
  simp only [UInt8.le_iff_toNat_le, Bool.and_eq_true, decide_eq_true_eq, UInt8.reduceToNat]
  omega

/-- White space after the text is dropped, and nothing else is. -/
theorem strip_numeric {text space : List UInt8} (numeric : ∀ b ∈ text, isNumeric b = true)
    (nonempty : text ≠ []) (blank : ∀ b ∈ space, isSpace b = true) :
    strip (text ++ space) = text := by
  have back : (text ++ space).rdropWhile isSpace = text := by
    induction space using List.reverseRecOn with
    | nil =>
        rw [List.append_nil, List.rdropWhile_eq_self_iff]
        intro filled
        rw [isSpace_of_isNumeric (numeric _ (List.getLast_mem filled))]
        decide
    | append_singleton space b ih =>
        rw [← List.append_assoc, List.rdropWhile_concat_pos _ _ _ (blank b (by simp))]
        exact ih fun c mem => blank c (by simp [mem])
  have front : (text ++ space).dropWhile isSpace = text ++ space := by
    cases text with
    | nil => exact absurd rfl nonempty
    | cons b text =>
        exact List.dropWhile_cons_of_neg (by simp [isSpace_of_isNumeric (numeric b (by simp))])
  rw [strip, front, back]

theorem splitSign_numeric {text : List UInt8} (numeric : ∀ b ∈ text, isNumeric b = true) :
    splitSign text = (false, text) := by
  cases text with
  | nil => rfl
  | cons b text =>
      have minus : b ≠ 45 := ne_of_test (numeric b List.mem_cons_self) rfl
      have plus : b ≠ 43 := ne_of_test (numeric b List.mem_cons_self) rfl
      simp [splitSign, minus, plus]

theorem floatNumber_numeric {text : List UInt8} (numeric : ∀ b ∈ text, isNumeric b = true) :
    floatNumber text = mantissa text := by
  have none : text.dropWhile (fun b => b ≠ 101 && b ≠ 69) = [] := by
    rw [List.dropWhile_eq_nil_iff]
    intro b mem
    simp [ne_of_test (numeric b mem) (c := 101) rfl,
      ne_of_test (numeric b mem) (c := 69) rfl]
  simp only [floatNumber, none]

/-- Text of digits and points, white space after it, is its mantissa. -/
theorem pyFloat_numeric {text space : List UInt8} (numeric : ∀ b ∈ text, isNumeric b = true)
    (nonempty : text ≠ []) (blank : ∀ b ∈ space, isSpace b = true) :
    pyFloat (text ++ space) = (mantissa text).map .finite := by
  have lower : text.map toLower = text :=
    (List.map_congr_left fun b mem => toLower_of_isNumeric (numeric b mem)).trans (List.map_id _)
  have word : ∀ c rest, isNumeric c = false → text ≠ c :: rest := by
    rintro c rest other rfl
    rw [numeric c List.mem_cons_self] at other
    cases other
  simp only [pyFloat, strip_numeric numeric nonempty blank, splitSign_numeric numeric, lower,
    floatNumber_numeric numeric]
  rw [if_neg, if_neg (word _ _ rfl)]
  · simp
  · rintro (inf | infinity)
    · exact word _ _ rfl inf
    · exact word _ _ rfl infinity

theorem digitPart_digits {text : List UInt8} (digits : ∀ b ∈ text, isDigit b = true)
    (nonempty : text ≠ []) : digitPart text = some text := by
  induction text with
  | nil => exact absurd rfl nonempty
  | cons d text ih =>
      have first := digits d List.mem_cons_self
      cases text with
      | nil => simp [digitPart, first]
      | cons u text =>
          have plain : u ≠ 95 := ne_of_test (digits u (by simp)) rfl
          rw [digitPart, if_pos first, if_neg plain,
            ih (fun b mem => digits b (List.mem_cons_of_mem _ mem)) (List.cons_ne_nil _ _)]
          rfl

/-- Digits hold no point. -/
theorem ne_point_of_digits {text : List UInt8} (digits : ∀ b ∈ text, isDigit b = true) :
    ∀ b ∈ text, decide (b ≠ 46) = true := fun b mem => by
  simpa using ne_of_test (digits b mem) rfl

theorem takeWhile_digits {text : List UInt8} (digits : ∀ b ∈ text, isDigit b = true)
    (rest : List UInt8) :
    (text ++ 46 :: rest).takeWhile (· ≠ 46) = text ∧
      (text ++ 46 :: rest).dropWhile (· ≠ 46) = 46 :: rest := by
  constructor
  · rw [List.takeWhile_append_of_pos (ne_point_of_digits digits)]
    simp
  · rw [List.dropWhile_append_of_pos (ne_point_of_digits digits)]
    simp

/-- Digits alone. -/
theorem mantissa_digits {text : List UInt8} (digits : ∀ b ∈ text, isDigit b = true)
    (nonempty : text ≠ []) : mantissa text = some (number text : ℚ) := by
  have whole : text.takeWhile (· ≠ 46) = text :=
    List.takeWhile_eq_self_iff.mpr (ne_point_of_digits digits)
  have fraction : text.dropWhile (· ≠ 46) = [] :=
    List.dropWhile_eq_nil_iff.mpr (ne_point_of_digits digits)
  simp only [mantissa, whole, fraction, digitPart_digits digits nonempty, Option.map_some]

/-- Digits, the point, digits; there may be none in front of the point. -/
theorem mantissa_point {whole fraction : List UInt8} (digits : ∀ b ∈ whole, isDigit b = true)
    (digits' : ∀ b ∈ fraction, isDigit b = true) (nonempty : fraction ≠ []) :
    mantissa (whole ++ 46 :: fraction) =
      some ((number (whole ++ fraction) : ℚ) / 10 ^ fraction.length) := by
  obtain ⟨front, back⟩ := takeWhile_digits digits fraction
  have parsed := digitPart_digits digits' nonempty
  cases fraction with
  | nil => exact absurd rfl nonempty
  | cons f fraction =>
      cases whole with
      | nil =>
          simp only [mantissa, front, back, parsed, Option.map_some]
          rfl
      | cons w whole =>
          simp only [mantissa, front, back, parsed,
            digitPart_digits digits (List.cons_ne_nil _ _)]

end Adas.Lib
