import Mathlib.Tactic.Linarith
import Adas.Esp.Tasks

/-!
Joystick values through `int8_t`.

`esp_spp_cb` computes each axis as an `int` and stores it in an `int8_t`;
`mcpwm_motor_control` compares the stored values with ±60 and hands their size on
as a percentage. An axis value in the range of the joystick is stored as it is.
Any other one comes back modulo 256, possibly on the other side
(`turned_around`). Only the axis that decides the branch matters, and what it
must be modulo 256 is `PowerKept` (`faithful_iff_powerKept`).
-/

namespace Adas.Esp

/-! ### Branches -/

/-- The branches of `mcpwm_motor_control`. -/
inductive MotorBranch where
  | turnRight | turnLeft | forward | reverse | stop
  deriving DecidableEq, Repr

/-- The branch that axis values of any size select. -/
def motorBranch (currentState : UInt8) (x y : ℤ) : MotorBranch :=
  if currentState = 2 then if y < -60 then .reverse else .stop
  else if x > 60 then .turnRight
  else if x < -60 then .turnLeft
  else if y > 60 then .forward
  else if y < -60 then .reverse
  else .stop

/-- What a branch does, given the sizes of both axes. -/
def MotorBranch.calls (dutyX dutyY : ℚ) : MotorBranch → List Call
  | .turnRight => brushedMotorForward .timer0 dutyX ++ brushedMotorForward .timer1 (dutyX / 3)
  | .turnLeft => brushedMotorForward .timer0 (dutyX / 3) ++ brushedMotorForward .timer1 dutyX
  | .forward => brushedMotorForward .timer0 dutyY ++ brushedMotorForward .timer1 dutyY
  | .reverse => brushedMotorBackward .timer0 dutyY ++ brushedMotorBackward .timer1 dutyY
  | .stop => brushedMotorStop .timer0 ++ brushedMotorStop .timer1

/-- The motor function is its branch. -/
theorem mcpwmMotorControl_eq (currentState : UInt8) (xAxis yAxis : Int8) :
    mcpwmMotorControl currentState xAxis yAxis =
      (motorBranch currentState xAxis.toInt yAxis.toInt).calls
        xAxis.toInt.natAbs yAxis.toInt.natAbs := by
  simp only [mcpwmMotorControl, motorBranch]
  split
  · split <;> rfl
  split
  · rfl
  split
  · rfl
  split
  · rfl
  split <;> rfl

/-- The duties that calls pass to MCPWM. -/
def duties (calls : List Call) : List ℚ :=
  calls.filterMap fun
    | .setDuty _ _ duty => some duty
    | _ => none

/-- Percentages. -/
def WithinPower (calls : List Call) : Prop := ∀ duty ∈ duties calls, 0 ≤ duty ∧ duty ≤ 100

/-- The command that `esp_spp_cb` issues for a payload. -/
def EspState.motorCommand (e : EspState) (ind : DataInd) : List Call :=
  mcpwmMotorControl e.reader.currentState ind.xAxis ind.yAxis

theorem EspState.espSppCb_outputs (e : EspState) (ind : DataInd) :
    (e.espSppCb ind).outputs = runCalls (e.motorCommand ind) e.outputs := rfl

/-- The command is what the branch does that the values before their conversion
select, with the sizes of the stored axes, and at percentages. -/
structure Faithful (e : EspState) (ind : DataInd) : Prop where
  branch : e.motorCommand ind =
    (motorBranch e.reader.currentState (ind.field 1) (ind.field 4)).calls
      ind.xAxis.toInt.natAbs ind.yAxis.toInt.natAbs
  power : WithinPower (e.motorCommand ind)

/-! ### From the calls back to the branch -/

/-- The axis that selects a branch gives it a duty above zero. -/
def MotorBranch.Moves (dutyX dutyY : ℚ) : MotorBranch → Prop
  | .turnRight | .turnLeft => 0 < dutyX
  | .forward | .reverse => 0 < dutyY
  | .stop => True

theorem moves_motorBranch (currentState : UInt8) (x y : ℤ) :
    (motorBranch currentState x y).Moves x.natAbs y.natAbs := by
  have positive {v : ℤ} (beyond : v < -60 ∨ 60 < v) : 0 < (v.natAbs : ℚ) := by
    exact_mod_cast (by omega : 0 < v.natAbs)
  unfold motorBranch
  split_ifs with h₁ h₂ h₃ h₄ h₅ h₆
  · exact positive (Or.inl h₂)
  · trivial
  · exact positive (Or.inr h₃)
  · exact positive (Or.inl h₄)
  · exact positive (Or.inr h₅)
  · exact positive (Or.inl h₆)
  · trivial

/-- The calls of a branch that moves are those of no other branch. -/
theorem MotorBranch.eq_of_calls {b b' : MotorBranch} {dutyX dutyY : ℚ}
    (moves : b.Moves dutyX dutyY) (same : b.calls dutyX dutyY = b'.calls dutyX dutyY) :
    b = b' := by
  cases b <;> cases b' <;>
    simp [calls, brushedMotorForward, brushedMotorBackward, brushedMotorStop] at same ⊢ <;>
    simp only [Moves] at moves <;> linarith

/-! ### Axis values -/

/-- Within the limits on both sides. -/
def Rest (v : ℤ) : Prop := -60 ≤ v ∧ v ≤ 60

/-- Above the limit, and 61 to 100 modulo 256. -/
def KeptAbove (v : ℤ) : Prop := 60 < v ∧ 61 ≤ v % 256 ∧ v % 256 ≤ 100

/-- Below the limit, and -100 to -61 modulo 256. -/
def KeptBelow (v : ℤ) : Prop := v < -60 ∧ 156 ≤ v % 256 ∧ v % 256 ≤ 195

/-- In the brake state the y axis decides between reverse and stop; otherwise the
first axis beyond a limit decides, x before y. -/
def PowerKept (currentState : UInt8) (x y : ℤ) : Prop :=
  if currentState = 2 then KeptBelow y ∨ -60 ≤ y ∧ (y % 256 < 128 ∨ 195 < y % 256)
  else KeptAbove x ∨ KeptBelow x ∨ Rest x ∧ (KeptAbove y ∨ KeptBelow y ∨ Rest y)

/-- What the conversion stores: the same value modulo 256, within a byte. -/
structure Wraps (v w : ℤ) : Prop where
  low : -128 ≤ w
  high : w ≤ 127
  same : w % 256 = v % 256

theorem wraps_ofInt (v : ℤ) : Wraps v (Int8.ofInt v).toInt := by
  rw [Int8.toInt_ofInt]
  change Wraps v (v.bmod 256)
  have low := Int.le_bmod (x := v) (m := 256) (by decide)
  have high := Int.bmod_lt (x := v) (m := 256) (by decide)
  exact ⟨by omega, by omega, Int.bmod_emod⟩

section Wrapped

variable {v w : ℤ} (h : Wraps v w)

include h

theorem Wraps.rest (rest : Rest v) : w = v := by
  obtain ⟨low, high, same⟩ := h
  unfold Rest at rest
  omega

/-- Above the limit: stored above it and at most 100. -/
theorem Wraps.above (beyond : 60 < v) : 60 < w ∧ w.natAbs ≤ 100 ↔ KeptAbove v := by
  obtain ⟨low, high, same⟩ := h
  unfold KeptAbove
  omega

theorem Wraps.below (beyond : v < -60) : w < -60 ∧ w.natAbs ≤ 100 ↔ KeptBelow v := by
  obtain ⟨low, high, same⟩ := h
  unfold KeptBelow
  omega

/-- Not stored below the limit. -/
theorem Wraps.not_below : ¬ w < -60 ↔ v % 256 < 128 ∨ 195 < v % 256 := by
  obtain ⟨low, high, same⟩ := h
  omega

end Wrapped

/-- Every value is beyond one of the limits or at rest, and only one of the three. -/
theorem side (v : ℤ) : 60 < v ∨ v < -60 ∨ Rest v := by
  unfold Rest
  omega

theorem not_rest_of_above {v : ℤ} (above : 60 < v) : ¬ Rest v :=
  fun rest => absurd above (not_lt.mpr rest.2)

theorem not_rest_of_below {v : ℤ} (below : v < -60) : ¬ Rest v :=
  fun rest => absurd below (not_lt.mpr rest.1)

theorem not_below_of_above {v : ℤ} (above : 60 < v) : ¬ v < -60 :=
  not_lt.mpr (le_trans (by decide) above.le)

theorem not_keptBelow_of_above {v : ℤ} (above : 60 < v) : ¬ KeptBelow v :=
  fun kept => not_below_of_above above kept.1

theorem not_keptAbove_of_below {v : ℤ} (below : v < -60) : ¬ KeptAbove v :=
  fun kept => not_below_of_above kept.1 below

theorem Rest.not_keptAbove {v : ℤ} (rest : Rest v) : ¬ KeptAbove v :=
  fun kept => not_rest_of_above kept.1 rest

theorem Rest.not_keptBelow {v : ℤ} (rest : Rest v) : ¬ KeptBelow v :=
  fun kept => not_rest_of_below kept.1 rest

/-! ### Power -/

theorem percentage_iff {n : ℕ} : 0 ≤ (n : ℚ) ∧ (n : ℚ) ≤ 100 ↔ n ≤ 100 := by
  constructor
  · rintro ⟨-, le⟩
    exact_mod_cast le
  · intro le
    exact ⟨Nat.cast_nonneg n, by exact_mod_cast le⟩

/-- The slower wheel of a turn is within power if the faster one is. -/
theorem percentage_third {n : ℕ} (le : n ≤ 100) : 0 ≤ (n : ℚ) / 3 ∧ (n : ℚ) / 3 ≤ 100 := by
  obtain ⟨low, high⟩ := percentage_iff.mpr le
  constructor <;> linarith

theorem withinPower_append (calls calls' : List Call) :
    WithinPower (calls ++ calls') ↔ WithinPower calls ∧ WithinPower calls' := by
  simp only [WithinPower, duties, List.filterMap_append, List.forall_mem_append]

theorem withinPower_forward (t : Timer) (duty : ℚ) :
    WithinPower (brushedMotorForward t duty) ↔ 0 ≤ duty ∧ duty ≤ 100 := by
  simp [WithinPower, duties, brushedMotorForward]

theorem withinPower_backward (t : Timer) (duty : ℚ) :
    WithinPower (brushedMotorBackward t duty) ↔ 0 ≤ duty ∧ duty ≤ 100 := by
  simp [WithinPower, duties, brushedMotorBackward]

theorem withinPower_stop (t : Timer) : WithinPower (brushedMotorStop t) := by
  simp [WithinPower, duties, brushedMotorStop]

/-- The axis that decides a branch gives its duty. -/
theorem withinPower_iff {b : MotorBranch} {x y : ℕ} :
    WithinPower (b.calls x y) ↔
      match b with
      | .turnRight | .turnLeft => x ≤ 100
      | .forward | .reverse => y ≤ 100
      | .stop => True := by
  cases b with
  | turnRight =>
      rw [MotorBranch.calls, withinPower_append, withinPower_forward, withinPower_forward,
        percentage_iff]
      exact ⟨fun both => both.1, fun le => ⟨le, percentage_third le⟩⟩
  | turnLeft =>
      rw [MotorBranch.calls, withinPower_append, withinPower_forward, withinPower_forward,
        percentage_iff]
      exact ⟨fun both => both.2, fun le => ⟨percentage_third le, le⟩⟩
  | forward =>
      rw [MotorBranch.calls, withinPower_append, withinPower_forward, withinPower_forward,
        percentage_iff, and_self]
  | reverse =>
      rw [MotorBranch.calls, withinPower_append, withinPower_backward, withinPower_backward,
        percentage_iff, and_self]
  | stop =>
      rw [MotorBranch.calls, withinPower_append]
      exact iff_true_intro ⟨withinPower_stop _, withinPower_stop _⟩

/-! ### Which values select a branch -/

/-- The axis values that select a branch outside the brake state: x decides before y. -/
def MotorBranch.Selected (x y : ℤ) : MotorBranch → Prop
  | .turnRight => 60 < x
  | .turnLeft => x < -60
  | .forward => Rest x ∧ 60 < y
  | .reverse => Rest x ∧ y < -60
  | .stop => Rest x ∧ Rest y

theorem selected_motorBranch {currentState : UInt8} (driving : currentState ≠ 2) (x y : ℤ) :
    (motorBranch currentState x y).Selected x y := by
  rw [motorBranch, if_neg driving]
  split
  · assumption
  rename_i notRight
  split
  · assumption
  rename_i notLeft
  have rest : Rest x := ⟨not_lt.mp notLeft, not_lt.mp notRight⟩
  split
  · exact ⟨rest, ‹_›⟩
  rename_i notForward
  split
  · exact ⟨rest, ‹_›⟩
  · exact ⟨rest, not_lt.mp ‹_›, not_lt.mp notForward⟩

theorem motorBranch_of_selected {currentState : UInt8} (driving : currentState ≠ 2) {x y : ℤ}
    {b : MotorBranch} (selected : b.Selected x y) : motorBranch currentState x y = b := by
  rw [motorBranch, if_neg driving]
  cases b with
  | turnRight => exact if_pos selected
  | turnLeft =>
      have notRight : ¬ x > 60 := fun right => not_below_of_above right selected
      rw [if_neg notRight]
      exact if_pos selected
  | forward =>
      obtain ⟨rest, above⟩ := selected
      rw [if_neg (not_lt.mpr rest.2), if_neg (not_lt.mpr rest.1), if_pos above]
  | reverse =>
      obtain ⟨rest, below⟩ := selected
      have notForward : ¬ y > 60 := fun above => not_below_of_above above below
      rw [if_neg (not_lt.mpr rest.2), if_neg (not_lt.mpr rest.1), if_neg notForward, if_pos below]
  | stop =>
      obtain ⟨rest, rest'⟩ := selected
      rw [if_neg (not_lt.mpr rest.2), if_neg (not_lt.mpr rest.1), if_neg (not_lt.mpr rest'.2),
        if_neg (not_lt.mpr rest'.1)]

theorem motorBranch_eq_iff {currentState : UInt8} (driving : currentState ≠ 2) {x y : ℤ}
    {b : MotorBranch} : motorBranch currentState x y = b ↔ b.Selected x y := by
  constructor
  · rintro rfl
    exact selected_motorBranch driving x y
  · exact motorBranch_of_selected driving

/-- In the brake state y decides between two branches. -/
theorem braking_reverse_iff {x y : ℤ} : motorBranch 2 x y = .reverse ↔ y < -60 := by
  rw [motorBranch, if_pos rfl]
  split
  · exact iff_of_true rfl ‹_›
  · exact iff_of_false (by simp) ‹_›

theorem braking_stop_iff {x y : ℤ} : motorBranch 2 x y = .stop ↔ ¬ y < -60 := by
  rw [motorBranch, if_pos rfl]
  split
  · exact iff_of_false (by simp) (not_not_intro ‹_›)
  · exact iff_of_true rfl ‹_›

theorem branch_and_power_iff {b b' : MotorBranch} {x y : ℕ} :
    b' = b ∧ WithinPower (b'.calls x y) ↔ b' = b ∧ WithinPower (b.calls x y) :=
  and_congr_right fun same => by rw [same]

/-! ### The law -/

section Stored

variable {X Y x y : ℤ} (storedX : Wraps X x) (storedY : Wraps Y y)

include storedY

/-- The brake state. -/
theorem kept_braking_iff :
    motorBranch 2 x y = motorBranch 2 X Y ∧
        WithinPower ((motorBranch 2 x y).calls x.natAbs y.natAbs) ↔
      KeptBelow Y ∨ -60 ≤ Y ∧ (Y % 256 < 128 ∨ 195 < Y % 256) := by
  rw [branch_and_power_iff]
  by_cases below : Y < -60
  · rw [braking_reverse_iff.mpr below, braking_reverse_iff, withinPower_iff,
      storedY.below below]
    exact ⟨Or.inl, fun kept => kept.resolve_right fun other => absurd below (not_lt.mpr other.1)⟩
  · rw [braking_stop_iff.mpr below, braking_stop_iff, withinPower_iff, storedY.not_below]
    have notKept : ¬ KeptBelow Y := fun kept => below kept.1
    simp only [notKept, not_lt.mp below, and_true, true_and, false_or]

/-- The y axis, where it decides between forward, reverse and stop. -/
theorem kept_y_iff {currentState : UInt8} (driving : currentState ≠ 2) (rest : Rest X) :
    motorBranch currentState X y = motorBranch currentState X Y ∧
        WithinPower ((motorBranch currentState X y).calls X.natAbs y.natAbs) ↔
      KeptAbove Y ∨ KeptBelow Y ∨ Rest Y := by
  rw [branch_and_power_iff]
  rcases side Y with above | below | inside
  · rw [motorBranch_of_selected driving (b := .forward) ⟨rest, above⟩]
    simp only [motorBranch_eq_iff driving, MotorBranch.Selected, withinPower_iff, rest, true_and,
      storedY.above above, not_keptBelow_of_above above, not_rest_of_above above, or_false]
  · rw [motorBranch_of_selected driving (b := .reverse) ⟨rest, below⟩]
    simp only [motorBranch_eq_iff driving, MotorBranch.Selected, withinPower_iff, rest, true_and,
      storedY.below below, not_keptAbove_of_below below, not_rest_of_below below, or_false,
      false_or]
  · rw [storedY.rest inside, motorBranch_of_selected driving (b := .stop) ⟨rest, inside⟩]
    simp only [withinPower_iff, inside, or_true, and_self]

include storedX

/-- Whatever the state, the stored values select the branch of the values before,
within power, exactly if the deciding axis was kept. -/
theorem kept_iff (currentState : UInt8) :
    motorBranch currentState x y = motorBranch currentState X Y ∧
        WithinPower ((motorBranch currentState x y).calls x.natAbs y.natAbs) ↔
      PowerKept currentState X Y := by
  by_cases braking : currentState = 2
  · rw [PowerKept, if_pos braking, braking]
    exact kept_braking_iff storedY
  rw [PowerKept, if_neg braking]
  rcases side X with right | left | rest
  · rw [branch_and_power_iff, motorBranch_of_selected braking (b := .turnRight) right]
    simp only [motorBranch_eq_iff braking, MotorBranch.Selected, withinPower_iff,
      storedX.above right, not_keptBelow_of_above right, not_rest_of_above right, false_and,
      or_false]
  · rw [branch_and_power_iff, motorBranch_of_selected braking (b := .turnLeft) left]
    simp only [motorBranch_eq_iff braking, MotorBranch.Selected, withinPower_iff,
      storedX.below left, not_keptAbove_of_below left, not_rest_of_below left, false_and,
      or_false, false_or]
  · rw [storedX.rest rest, kept_y_iff storedY braking rest]
    simp only [rest, rest.not_keptAbove, rest.not_keptBelow, true_and, false_or]

end Stored

/-- A payload is handled faithfully exactly if the axis that decides the branch is
within the limits, or beyond one of them with a remainder that keeps it there and
within power. -/
theorem faithful_iff_powerKept (e : EspState) (ind : DataInd) :
    Faithful e ind ↔ PowerKept e.reader.currentState (ind.field 1) (ind.field 4) := by
  rw [← kept_iff (wraps_ofInt (ind.field 1)) (wraps_ofInt (ind.field 4))]
  have command : e.motorCommand ind =
      (motorBranch e.reader.currentState ind.xAxis.toInt ind.yAxis.toInt).calls
        ind.xAxis.toInt.natAbs ind.yAxis.toInt.natAbs := mcpwmMotorControl_eq _ _ _
  constructor
  · rintro ⟨branch, power⟩
    rw [command] at branch power
    exact ⟨MotorBranch.eq_of_calls (moves_motorBranch _ _ _) branch, power⟩
  · rintro ⟨branch, power⟩
    refine ⟨?_, ?_⟩
    · rw [command]
      exact congrArg (fun b : MotorBranch => b.calls _ _) branch
    · rw [command]
      exact power

/-- Whatever the joystick sends between -100 and 100 is kept. -/
theorem powerKept_of_joystick (currentState : UInt8) {x y : ℤ} (rangeX : x.natAbs ≤ 100)
    (rangeY : y.natAbs ≤ 100) : PowerKept currentState x y := by
  unfold PowerKept KeptAbove KeptBelow Rest
  split
  · omega
  · omega

/-- An x axis of 128: the car turns left instead of right, at a duty of 128. -/
theorem turned_around :
    ¬ ∀ (e : EspState) (ind : DataInd), 7 ≤ ind.len → Faithful e ind := by
  intro always
  have sent : 7 ≤ (DataInd.ofBytes [48, 51, 50, 56, 50, 48, 48]).len := le_rfl
  exact absurd (always EspState.init _ sent).branch (by decide +kernel)

end Adas.Esp
