import Mathlib.Algebra.Order.Field.Rat
import Adas.Lib.Run

/-!
The motor driver of the ESP32 (`mcpwm_brushed_dc_control.c`).

A motor function is the list of driver calls it makes, in order, so that the
same definition serves when it runs alone and when another task interleaves with
it. Only unit 0 and duty mode 0 are ever passed, so both are left out of the
calls. The MCPWM unit is as the driver documents it: `mcpwm_set_signal_low`
forces an operator low until `mcpwm_set_duty_type` re-enables it, and
`mcpwm_set_duty` only stores the duty. Duties are exact rationals.
-/

namespace Adas.Esp

/-! ### The peripheral -/

/-- `MCPWM_TIMER_0` (left motor) and `MCPWM_TIMER_1` (right motor). -/
inductive Timer where
  | timer0 | timer1
  deriving DecidableEq, Repr

/-- `MCPWM_OPR_A` drives forward, `MCPWM_OPR_B` in reverse. -/
inductive Opr where
  | a | b
  deriving DecidableEq, Repr

/-- The opposite side of the bridge. -/
def Opr.other : Opr → Opr
  | .a => .b
  | .b => .a

@[simp] theorem Opr.other_ne (o : Opr) : o.other ≠ o := by
  cases o <;> decide

/-- What an operator's generator puts out. -/
inductive Mode where
  | low | pwm
  deriving DecidableEq, Repr

/-- One operator: its mode and the duty stored for it, in percent. -/
structure Channel where
  mode : Mode
  duty : ℚ
  deriving DecidableEq, Repr

/-- The operator conducts: PWM mode with a positive duty. -/
def Channel.Driven (c : Channel) : Prop := c.mode = .pwm ∧ 0 < c.duty

instance (c : Channel) : Decidable c.Driven := by
  unfold Channel.Driven
  infer_instance

/-- What the firmware drives: the four operators and the buzzer pin. -/
structure Outputs where
  mcpwm : Timer → Opr → Channel
  buzzer : Bool

/-- After `mcpwm_init`: PWM mode at duty 0 everywhere. -/
def Outputs.init : Outputs := ⟨fun _ _ => ⟨.pwm, 0⟩, false⟩

/-- Change one operator. -/
def Outputs.modify (out : Outputs) (t : Timer) (o : Opr) (f : Channel → Channel) : Outputs :=
  { out with mcpwm := fun t' o' =>
      if t' = t ∧ o' = o then f (out.mcpwm t' o') else out.mcpwm t' o' }

@[simp] theorem Outputs.modify_self (out : Outputs) (t : Timer) (o : Opr) (f : Channel → Channel) :
    (out.modify t o f).mcpwm t o = f (out.mcpwm t o) := by
  simp [modify]

theorem Outputs.modify_of_ne {out : Outputs} {t t' : Timer} {o o' : Opr} {f : Channel → Channel}
    (h : ¬ (t' = t ∧ o' = o)) : (out.modify t o f).mcpwm t' o' = out.mcpwm t' o' := by
  simp [modify, h]

/-! ### Calls -/

/-- The calls the motor functions make. -/
inductive Call where
  | setSignalLow (t : Timer) (o : Opr)
  | setDuty (t : Timer) (o : Opr) (duty : ℚ)
  | setDutyType (t : Timer) (o : Opr)
  /-- `gpio_set_level(BUZZER_GPIO, level)` -/
  | gpioSetLevel (level : Bool)
  /-- `vTaskDelay(ms / portTICK_PERIOD_MS)` -/
  | vTaskDelay (ms : ℕ)
  deriving DecidableEq, Repr

/-- The effect of one call. -/
def Call.exec : Call → Outputs → Outputs
  | .setSignalLow t o, out => out.modify t o fun c => { c with mode := .low }
  | .setDuty t o duty, out => out.modify t o fun c => { c with duty := duty }
  | .setDutyType t o, out => out.modify t o fun c => { c with mode := .pwm }
  | .gpioSetLevel level, out => { out with buzzer := level }
  | .vTaskDelay _, out => out

/-- Make all the calls. -/
def runCalls (calls : List Call) (out : Outputs) : Outputs :=
  calls.foldl (fun out c => c.exec out) out

@[simp] theorem runCalls_nil (out : Outputs) : runCalls [] out = out := rfl

@[simp] theorem runCalls_cons (c : Call) (calls : List Call) (out : Outputs) :
    runCalls (c :: calls) out = runCalls calls (c.exec out) := rfl

/-- Make the calls up to the next delay; what is left is to be run after it. -/
def runToDelay : List Call → Outputs → List Call × Outputs
  | [], out => ([], out)
  | .vTaskDelay _ :: rest, out => (rest, out)
  | c :: rest, out => runToDelay rest (c.exec out)

/-! ### The motor functions -/

/-- `brushed_motor_forward`. -/
def brushedMotorForward (t : Timer) (dutyCycle : ℚ) : List Call :=
  [.setSignalLow t .b, .setDuty t .a dutyCycle, .setDutyType t .a]

/-- `brushed_motor_backward`. -/
def brushedMotorBackward (t : Timer) (dutyCycle : ℚ) : List Call :=
  [.setSignalLow t .a, .setDuty t .b dutyCycle, .setDutyType t .b]

/-- `brushed_motor_stop`. -/
def brushedMotorStop (t : Timer) : List Call :=
  [.setSignalLow t .a, .setSignalLow t .b]

/-- `emergency_brake`. -/
def emergencyBrake : List Call :=
  [.gpioSetLevel true]
    ++ brushedMotorStop .timer0 ++ brushedMotorStop .timer1
    ++ brushedMotorBackward .timer0 50 ++ brushedMotorBackward .timer1 50
    ++ [.vTaskDelay 120]
    ++ brushedMotorStop .timer0 ++ brushedMotorStop .timer1
    ++ [.vTaskDelay 880, .gpioSetLevel false]

/-- `mcpwm_motor_control`: the calls it makes after its test of `current_state`. -/
def mcpwmMotorControl (currentState : UInt8) (xAxis yAxis : Int8) : List Call :=
  let limit : ℤ := 60
  let dutyY : ℚ := yAxis.toInt.natAbs
  let dutyX : ℚ := xAxis.toInt.natAbs
  if currentState = 2 then
    if yAxis.toInt < -limit then
      brushedMotorBackward .timer0 dutyY ++ brushedMotorBackward .timer1 dutyY
    else
      brushedMotorStop .timer0 ++ brushedMotorStop .timer1
  else if xAxis.toInt > limit then
    brushedMotorForward .timer0 dutyX ++ brushedMotorForward .timer1 (dutyX / 3)
  else if xAxis.toInt < -limit then
    brushedMotorForward .timer0 (dutyX / 3) ++ brushedMotorForward .timer1 dutyX
  else if yAxis.toInt > limit then
    brushedMotorForward .timer0 dutyY ++ brushedMotorForward .timer1 dutyY
  else if yAxis.toInt < -limit then
    brushedMotorBackward .timer0 dutyY ++ brushedMotorBackward .timer1 dutyY
  else
    brushedMotorStop .timer0 ++ brushedMotorStop .timer1

/-! ### What calls leave alone -/

/-- A call that does not re-enable an operator keeps it forced low. -/
theorem Call.exec_low {c : Call} {out : Outputs} {t : Timer} {o : Opr}
    (keeps : c ≠ .setDutyType t o) (low : (out.mcpwm t o).mode = .low) :
    ((c.exec out).mcpwm t o).mode = .low := by
  cases c with
  | setSignalLow t' o' =>
      by_cases same : t = t' ∧ o = o'
      · obtain ⟨rfl, rfl⟩ := same
        simp [exec]
      · rwa [exec, Outputs.modify_of_ne same]
  | setDuty t' o' duty =>
      by_cases same : t = t' ∧ o = o'
      · obtain ⟨rfl, rfl⟩ := same
        simpa [exec] using low
      · rwa [exec, Outputs.modify_of_ne same]
  | setDutyType t' o' =>
      have other : ¬ (t = t' ∧ o = o') := by
        rintro ⟨rfl, rfl⟩
        exact keeps rfl
      rwa [exec, Outputs.modify_of_ne other]
  | gpioSetLevel level => exact low
  | vTaskDelay ms => exact low

/-- No call of the list re-enables a forward operator. -/
def NoForward (calls : List Call) : Prop := ∀ c ∈ calls, ∀ t, c ≠ .setDutyType t .a

/-- Both forward operators are forced low. -/
def ForwardLow (out : Outputs) : Prop := ∀ t, (out.mcpwm t .a).mode = .low

theorem runCalls_forwardLow {calls : List Call} {out : Outputs} (safe : NoForward calls)
    (low : ForwardLow out) : ForwardLow (runCalls calls out) := by
  induction calls generalizing out with
  | nil => exact low
  | cons c calls ih =>
      have rest : NoForward calls := fun c' h => safe c' (List.mem_cons_of_mem _ h)
      refine ih rest ?_
      intro t
      exact Call.exec_low (safe c List.mem_cons_self t) (low t)

theorem runToDelay_cons {c : Call} (busy : ¬ ∃ ms, c = .vTaskDelay ms) (calls : List Call)
    (out : Outputs) : runToDelay (c :: calls) out = runToDelay calls (c.exec out) := by
  cases c with
  | vTaskDelay ms => exact absurd ⟨ms, rfl⟩ busy
  | _ => rfl

/-- A segment makes the calls up to its delay, and leaves the others. -/
theorem runToDelay_eq (calls : List Call) (out : Outputs) :
    ∃ made, calls = made ++ (runToDelay calls out).1 ∧
      (runToDelay calls out).2 = runCalls made out := by
  induction calls generalizing out with
  | nil => exact ⟨[], rfl, rfl⟩
  | cons c calls ih =>
      by_cases blocks : ∃ ms, c = .vTaskDelay ms
      · obtain ⟨ms, rfl⟩ := blocks
        exact ⟨[.vTaskDelay ms], rfl, rfl⟩
      · obtain ⟨made, split, ran⟩ := ih (c.exec out)
        rw [runToDelay_cons blocks]
        exact ⟨c :: made, congrArg (List.cons c) split, ran⟩

theorem runToDelay_noForward {calls : List Call} (out : Outputs) (safe : NoForward calls) :
    NoForward (runToDelay calls out).1 := by
  obtain ⟨made, split, -⟩ := runToDelay_eq calls out
  intro c h
  refine safe c ?_
  rw [split]
  exact List.mem_append_right _ h

theorem runToDelay_forwardLow {calls : List Call} {out : Outputs} (safe : NoForward calls)
    (low : ForwardLow out) : ForwardLow (runToDelay calls out).2 := by
  obtain ⟨made, split, ran⟩ := runToDelay_eq calls out
  rw [ran]
  refine runCalls_forwardLow ?_ low
  intro c h
  refine safe c ?_
  rw [split]
  exact List.mem_append_left _ h

/-! ### The brake and the lockout branch -/

theorem emergencyBrake_noForward : NoForward emergencyBrake := by
  simp [NoForward, emergencyBrake, brushedMotorStop, brushedMotorBackward]

/-- The brake has forced both forward operators low when it first blocks. -/
theorem emergencyBrake_forwardLow (out : Outputs) :
    ForwardLow (runToDelay emergencyBrake out).2 := by
  intro t
  cases t <;> rfl

/-- In the brake state the joystick can stop and reverse, nothing else. -/
theorem mcpwmMotorControl_noForward (xAxis yAxis : Int8) :
    NoForward (mcpwmMotorControl 2 xAxis yAxis) := by
  simp only [mcpwmMotorControl, if_true]
  split <;> simp [NoForward, brushedMotorStop, brushedMotorBackward]

end Adas.Esp
