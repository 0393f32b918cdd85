import Mathlib.Data.Nat.Digits.Lemmas

/-!
Decimal text, as ASCII bytes.

`number` reads digits, most significant first, and `printNat` writes a number
without leading zeros; `padZeros` adds them. `number_printNat` and
`number_padZeros` are the round trips.
-/

namespace Adas.Lib

/-- A byte between `0` and `9`. -/
def isDigit (b : UInt8) : Bool := 48 ≤ b && b ≤ 57

/-- The byte of a digit below ten. -/
def digitByte (d : ℕ) : UInt8 := UInt8.ofNat (48 + d)

/-- The number that digits stand for. -/
def number (text : List UInt8) : ℕ := text.foldl (fun n b => 10 * n + (b.toNat - 48)) 0

/-- The digits of a number, without leading zeros. -/
def printNat (n : ℕ) : List UInt8 :=
  if n = 0 then [48] else (Nat.digits 10 n).reverse.map digitByte

/-- At least `width` bytes, with zeros in front. -/
def padZeros (width : ℕ) (text : List UInt8) : List UInt8 :=
  List.replicate (width - text.length) 48 ++ text

/-! ### Reading -/

theorem toNat_digitByte {d : ℕ} (lt : d < 10) : (digitByte d).toNat = 48 + d := by
  rw [digitByte, UInt8.toNat_ofNat']
  exact Nat.mod_eq_of_lt (by omega)

theorem isDigit_digitByte {d : ℕ} (lt : d < 10) : isDigit (digitByte d) = true := by
  have byte := toNat_digitByte lt
  simp only [isDigit, Bool.and_eq_true, decide_eq_true_eq, UInt8.le_iff_toNat_le, byte]
  constructor
  · exact Nat.le_add_right 48 d
  · exact Nat.add_le_add_left (Nat.le_of_lt_succ lt) 48

@[simp] theorem number_nil : number [] = 0 := rfl

theorem number_append (text text' : List UInt8) :
    number (text ++ text') = number text * 10 ^ text'.length + number text' := by
  induction text' using List.reverseRecOn with
  | nil => simp
  | append_singleton text' b ih =>
      have snoc (t : List UInt8) : number (t ++ [b]) = 10 * number t + (b.toNat - 48) := by
        simp [number]
      rw [← List.append_assoc, snoc, ih, snoc, List.length_append, List.length_singleton, pow_succ]
      ring

/-- Leading zeros do not count. -/
theorem number_padZeros (width : ℕ) (text : List UInt8) :
    number (padZeros width text) = number text := by
  have zeros : ∀ k, number (List.replicate k 48) = 0 := by
    intro k
    induction k with
    | zero => rfl
    | succ k ih =>
        rw [List.replicate_succ', number_append, ih]
        rfl
  rw [padZeros, number_append, zeros]
  simp

/-! ### Printing -/

/-- Digits in the order of `Nat.digits`, the least significant one first. -/
theorem number_reverse_map_digitByte {ds : List ℕ} (lt : ∀ d ∈ ds, d < 10) :
    number (ds.reverse.map digitByte) = Nat.ofDigits 10 ds := by
  induction ds with
  | nil => rfl
  | cons d ds ih =>
      have one : number [digitByte d] = d := by
        simp [number, toNat_digitByte (lt d List.mem_cons_self)]
      rw [List.reverse_cons, List.map_append, List.map_singleton, number_append, one,
        ih fun d mem => lt d (List.mem_cons_of_mem _ mem), Nat.ofDigits_cons, List.length_singleton,
        pow_one]
      ring

theorem digits_lt_ten {n d : ℕ} (mem : d ∈ Nat.digits 10 n) : d < 10 :=
  Nat.digits_lt_base (by decide) mem

theorem number_printNat (n : ℕ) : number (printNat n) = n := by
  unfold printNat
  split
  · rename_i zero
    rw [zero]
    rfl
  · rw [number_reverse_map_digitByte fun d mem => digits_lt_ten mem, Nat.ofDigits_digits]

theorem isDigit_of_mem_printNat {n : ℕ} {b : UInt8} (mem : b ∈ printNat n) : isDigit b = true := by
  unfold printNat at mem
  split at mem
  · rw [List.mem_singleton.mp mem]
    rfl
  · obtain ⟨d, inside, rfl⟩ := List.mem_map.mp mem
    exact isDigit_digitByte (digits_lt_ten (List.mem_reverse.mp inside))

theorem length_printNat_le {n width : ℕ} (positive : 0 < width) (lt : n < 10 ^ width) :
    (printNat n).length ≤ width := by
  unfold printNat
  split
  · exact positive
  · simpa using (Nat.digits_length_le_iff (by decide) n).mpr lt

theorem isDigit_of_mem_padZeros {width : ℕ} {text : List UInt8}
    (digits : ∀ b ∈ text, isDigit b = true) {b : UInt8} (mem : b ∈ padZeros width text) :
    isDigit b = true := by
  rcases List.mem_append.mp mem with zero | inside
  · rw [List.eq_of_mem_replicate zero]
    rfl
  · exact digits b inside

theorem length_padZeros {width : ℕ} {text : List UInt8} (fits : text.length ≤ width) :
    (padZeros width text).length = width := by
  simp only [padZeros, List.length_append, List.length_replicate]
  omega

end Adas.Lib
