import Adas.Esp.Tasks
import Adas.Lib.CString

/-!
The joystick of the other firmware (`CarControlESP32`, `uart.c`).

`joystick_bluetooth_TASK` cuts each field out of the frame with `substr_to_int`:
it copies the field and one byte more into a block of its own, ends the copy with
a zero in the place of that byte, and calls `atoi`. The frame itself is not
written, so the second field is still whole when its turn comes. On digits this
is the positional arithmetic of `esp_spp_cb` (`substrToInt_eq_field`), and both
values go into an `int8_t` the same way (`same_axes`).
-/

namespace Adas.Esp

open Lib

/-! ### The task -/

def xAxisStartPos : UInt8 := 1
def xAxisEndPos : UInt8 := 3
def yAxisStartPos : UInt8 := 4
def yAxisEndPos : UInt8 := 6
def intSubstringOffset : ℤ := -200

/-- `substr_to_int`: the value it stores through `int_value`. `memcpy` fills the
whole block it allocated. -/
def substrToInt (data : ℕ → UInt8) (substringInitPos substringEndPos : UInt8) : Int8 :=
  let substringSize := substringEndPos - substringInitPos + 2
  let btData := (List.range substringSize.toNat).map fun k => data (substringInitPos.toNat + k)
  let btData := btData.set (substringSize.toNat - 1) 0
  Int8.ofInt (atoi btData + intSubstringOffset)

/-- The globals `x_axis` and `y_axis`. -/
structure Axes where
  xAxis : Int8
  yAxis : Int8
  deriving DecidableEq, Repr

/-- The loop body of `joystick_bluetooth_TASK` after `uart_read_bytes` returned
`len` and filled `data`. -/
def joystickBluetoothTask (axes : Axes) (len : ℤ) (data : ℕ → UInt8) : Axes :=
  if len > 0 then
    ⟨substrToInt data xAxisStartPos xAxisEndPos, substrToInt data yAxisStartPos yAxisEndPos⟩
  else axes

/-! ### Fields of digits -/

/-- The bytes from one position of the frame to another, both included. -/
def substring (data : ℕ → UInt8) (first last : ℕ) : List UInt8 :=
  (List.range (last + 1 - first)).map fun k => data (first + k)

theorem digits_substring {data : ℕ → UInt8} {first last : ℕ}
    (digits : ∀ k, first ≤ k → k ≤ last → isDigit (data k) = true) :
    ∀ b ∈ substring data first last, isDigit b = true := by
  intro b mem
  obtain ⟨k, inside, rfl⟩ := List.mem_map.mp mem
  have lt := List.mem_range.mp inside
  exact digits _ (Nat.le_add_right _ _) (by omega)

/-- The copy is the field and the byte behind it, which the terminator replaces. -/
theorem substrToInt_eq {data : ℕ → UInt8} {first last : UInt8} (order : first ≤ last)
    (fits : last.toNat - first.toNat + 2 < 256) :
    substrToInt data first last =
      Int8.ofInt (atoi (substring data first.toNat last.toNat ++ [0]) + intSubstringOffset) := by
  have le : first.toNat ≤ last.toNat := UInt8.le_iff_toNat_le.mp order
  have size : (last - first + 2).toNat = last.toNat + 1 - first.toNat + 1 := by
    rw [UInt8.toNat_add, UInt8.toNat_sub_of_le _ _ order]
    change (last.toNat - first.toNat + 2) % 256 = _
    omega
  rw [substrToInt, size, List.range_succ, List.map_append, Nat.add_sub_cancel,
    List.set_append_right _ _ (by simp)]
  simp [substring]

/-- A field of digits is stored as its number, offset and wrapped. -/
theorem substrToInt_digits {data : ℕ → UInt8} {first last : UInt8} (order : first ≤ last)
    (fits : last.toNat - first.toNat + 2 < 256)
    (digits : ∀ k, first.toNat ≤ k → k ≤ last.toNat → isDigit (data k) = true) :
    substrToInt data first last =
      Int8.ofInt (number (substring data first.toNat last.toNat) + intSubstringOffset) := by
  rw [substrToInt_eq order fits, atoi_digits (digits_substring digits) []]

/-! ### Both firmwares -/

/-- On digits the positional arithmetic of `esp_spp_cb` is reading the number. -/
theorem number_substring {buffer : DataInd} {k : ℕ}
    (digits : ∀ i, k ≤ i → i ≤ k + 2 → isDigit (buffer.data i) = true) :
    number (substring buffer.data k (k + 2)) + intSubstringOffset = buffer.field k := by
  have three : k + 2 + 1 - k = 3 := by omega
  have bytes : substring buffer.data k (k + 2) =
      [buffer.data k, buffer.data (k + 1), buffer.data (k + 2)] := by
    rw [substring, three]
    rfl
  have low : ∀ i, k ≤ i → i ≤ k + 2 → 48 ≤ (buffer.data i).toNat := by
    intro i above below
    have digit := digits i above below
    simp only [isDigit, Bool.and_eq_true, decide_eq_true_eq, UInt8.le_iff_toNat_le] at digit
    exact digit.1
  have first := low k le_rfl (by omega)
  have second := low (k + 1) (by omega) (by omega)
  have third := low (k + 2) (by omega) le_rfl
  rw [bytes]
  simp only [number, List.foldl_cons, List.foldl_nil, DataInd.field, intSubstringOffset]
  omega

/-- A field of three digits: both firmwares store the same value. -/
theorem substrToInt_eq_field {buffer : DataInd} {first last : UInt8} (order : first ≤ last)
    (three : last.toNat = first.toNat + 2)
    (digits : ∀ k, first.toNat ≤ k → k ≤ last.toNat → isDigit (buffer.data k) = true) :
    substrToInt buffer.data first last = Int8.ofInt (buffer.field first.toNat) := by
  rw [substrToInt_digits order (by omega) digits]
  rw [three] at digits ⊢
  rw [number_substring digits]

/-- A received frame whose six field bytes are digits: both firmwares store the
same axes, whatever the axes were, and whatever else the buffer holds. -/
theorem same_axes (axes : Axes) (e : EspState) (buffer : DataInd) (received : 0 < buffer.len)
    (digits : ∀ k, 1 ≤ k → k ≤ 6 → isDigit (buffer.data k) = true) :
    joystickBluetoothTask axes buffer.len buffer.data =
      ⟨(e.espSppCb buffer).xAxis, (e.espSppCb buffer).yAxis⟩ := by
  have x : substrToInt buffer.data xAxisStartPos xAxisEndPos = buffer.xAxis := by
    refine substrToInt_eq_field (by decide) (by decide) ?_
    intro k above below
    exact digits k above (below.trans (by decide))
  have y : substrToInt buffer.data yAxisStartPos yAxisEndPos = buffer.yAxis := by
    refine substrToInt_eq_field (by decide) (by decide) ?_
    intro k above below
    exact digits k (le_trans (by decide) above) below
  rw [joystickBluetoothTask, if_pos (by exact_mod_cast received), x, y]
  rfl

/-- A frame with a letter for its header and a line end behind its fields: 328 and
007 both wrap. -/
def wrapping : DataInd := DataInd.ofBytes [74, 51, 50, 56, 48, 48, 55, 13, 10]

theorem same_axes_wrapping : joystickBluetoothTask ⟨5, -5⟩ 9 wrapping.data = ⟨-128, 63⟩ := by
  have digits : ∀ k ≤ 6, 1 ≤ k → isDigit (wrapping.data k) = true := by decide
  have same := same_axes ⟨5, -5⟩ EspState.init wrapping (by decide)
    fun k above below => digits k below above
  exact same.trans rfl

end Adas.Esp
