import Adas.Esp.Tasks

/-!
The reverse pulse of the emergency brake against the joystick.

`emergency_brake` drives both motors in reverse at duty 50 and blocks for 120 ms.
While it blocks, a Bluetooth packet still runs `mcpwm_motor_control`, whose
branch for state 2 leaves the driver in charge of reversing: it sets the
reverse duty to the stick's, or stops the motors. Both forward operators stay
low whatever is received (`Tasks`), but the pulse itself is the last packet's
(`pulse_of_last_packet`), and a stick at rest cuts it off
(`pulse_cut_off`).
-/

namespace Adas.Esp

open Lib

/-! ### What the motors do -/

/-- Both motors are driven in reverse at a duty. -/
def Reversing (duty : ℚ) (out : Outputs) : Prop :=
  ∀ t, (out.mcpwm t .a).mode = .low ∧ out.mcpwm t .b = ⟨.pwm, duty⟩

/-- Both operators of both motors are forced low. -/
def Stopped (out : Outputs) : Prop :=
  ∀ t, (out.mcpwm t .a).mode = .low ∧ (out.mcpwm t .b).mode = .low

/-- What a packet asks for in state 2. -/
def PulseOf (yAxis : Int8) (out : Outputs) : Prop :=
  if yAxis.toInt < -60 then Reversing yAxis.toInt.natAbs out else Stopped out

theorem reversing_backward (duty : ℚ) (out : Outputs) :
    Reversing duty
      (runCalls (brushedMotorBackward .timer0 duty ++ brushedMotorBackward .timer1 duty) out) := by
  intro t
  cases t with
  | timer0 => exact ⟨rfl, rfl⟩
  | timer1 => exact ⟨rfl, rfl⟩

theorem stopped_stop (out : Outputs) :
    Stopped (runCalls (brushedMotorStop .timer0 ++ brushedMotorStop .timer1) out) := by
  intro t
  cases t with
  | timer0 => exact ⟨rfl, rfl⟩
  | timer1 => exact ⟨rfl, rfl⟩

/-- What the motors did before is forgotten. -/
theorem pulseOf_mcpwmMotorControl (xAxis yAxis : Int8) (out : Outputs) :
    PulseOf yAxis (runCalls (mcpwmMotorControl 2 xAxis yAxis) out) := by
  simp only [PulseOf, mcpwmMotorControl, if_true]
  split
  · exact reversing_backward _ out
  · exact stopped_stop out

/-- Up to its first delay the brake has started the pulse. -/
theorem reversing_emergencyBrake (out : Outputs) :
    Reversing 50 (runToDelay emergencyBrake out).2 := by
  intro t
  cases t with
  | timer0 => exact ⟨rfl, rfl⟩
  | timer1 => exact ⟨rfl, rfl⟩

/-- What it has left to do after that delay. -/
theorem runToDelay_emergencyBrake (out : Outputs) :
    (runToDelay emergencyBrake out).1 =
      brushedMotorStop .timer0 ++ brushedMotorStop .timer1
        ++ [.vTaskDelay 880, .gpioSetLevel false] := rfl

/-- A read that starts the brake ends in state 2. -/
theorem Reader.currentState_of_brakes {r : Reader} {data : List UInt8}
    (brakes : (r.receive data).2 = true) : (r.receive data).1.currentState = 2 := by
  cases data with
  | nil => cases brakes
  | cons byte rest =>
      simp only [receive, Bool.and_eq_true, decide_eq_true_iff] at brakes
      exact brakes.2

/-! ### The first delay -/

/-- The first delay of the brake, after some packets: state 2, the second half of
the brake still to come, and the pulse as the last packet left it. -/
structure InPulse (inds : List DataInd) (e : EspState) : Prop where
  braking : e.reader.currentState = 2
  pending : e.brake = brushedMotorStop .timer0 ++ brushedMotorStop .timer1
    ++ [.vTaskDelay 880, .gpioSetLevel false]
  motors : match inds.getLast? with
    | none => Reversing 50 e.outputs
    | some ind => PulseOf ind.yAxis e.outputs

theorem inPulse_read {e : EspState} {data : List UInt8}
    (brakes : (e.reader.receive data).2 = true) : InPulse [] (e.read data) := by
  refine ⟨?_, ?_, ?_⟩
  · rw [EspState.read_reader]
    exact Reader.currentState_of_brakes brakes
  · rw [EspState.read_of_brakes brakes]
    exact runToDelay_emergencyBrake e.outputs
  · rw [EspState.read_of_brakes brakes]
    exact reversing_emergencyBrake e.outputs

/-- One more packet: the motors do what it asks for. -/
theorem InPulse.espSppCb {inds : List DataInd} {e : EspState} (h : InPulse inds e) (ind : DataInd) :
    InPulse (inds ++ [ind]) (e.espSppCb ind) := by
  refine ⟨h.braking, h.pending, ?_⟩
  rw [List.getLast?_concat]
  simp only [EspState.espSppCb, h.braking]
  exact pulseOf_mcpwmMotorControl _ _ _

/-- Any packets: they keep the UART task in its first delay. -/
theorem InPulse.packets {e : EspState} (h : InPulse [] e) (inds : List DataInd) :
    InPulse inds (inds.foldl EspState.espSppCb e) := by
  induction inds using List.reverseRecOn with
  | nil => exact h
  | append_singleton inds ind ih =>
      rw [List.foldl_append, List.foldl_cons, List.foldl_nil]
      exact ih.espSppCb ind

/-- From every state whose read starts the brake: at the end of its first delay
the motors reverse at 50 if no packet came, and do what the last packet asked
for otherwise. -/
theorem pulse_of_last_packet (e : EspState) (data : List UInt8) (inds : List DataInd)
    (idle : e.brake = []) (brakes : (e.reader.receive data).2 = true) :
    ∃ e', run step e (.read data :: inds.map .dataInd) = some e' ∧ InPulse inds e' := by
  have ran := run_dataInds (e.read data) inds
  have pulse := (inPulse_read brakes).packets inds
  exact ⟨_, run_cons_eq_some.mpr ⟨e.read data, if_pos idle, ran⟩, pulse⟩

/-- A stick pulled back to -100 takes the pulse over, one pulled to -61 after it
lowers the duty. -/
theorem pulse_of_last_packet_back :
    ∃ e, run step EspState.init [.read [50],
        .dataInd (DataInd.ofBytes [48, 50, 48, 48, 49, 48, 48]),
        .dataInd (DataInd.ofBytes [48, 50, 48, 48, 49, 51, 57])] = some e ∧
      Reversing 61 e.outputs := by
  obtain ⟨e, ran, pulse⟩ := pulse_of_last_packet EspState.init [50]
    [DataInd.ofBytes [48, 50, 48, 48, 49, 48, 48], DataInd.ofBytes [48, 50, 48, 48, 49, 51, 57]]
    rfl rfl
  exact ⟨e, ran, pulse.motors⟩

/-- One packet of a stick at rest stops both motors for the rest of the delay. -/
theorem pulse_cut_off :
    ¬ ∀ (e : EspState) (data : List UInt8) (inds : List DataInd), e.brake = [] →
      (e.reader.receive data).2 = true →
      ∃ e', run step e (.read data :: inds.map .dataInd) = some e' ∧ Reversing 50 e'.outputs := by
  intro kept
  obtain ⟨e, ran, reversing⟩ :=
    kept EspState.init [50] [DataInd.ofBytes [48, 50, 48, 48, 50, 48, 48]] rfl rfl
  cases ran
  have stopped : ∀ c : Channel, c.mode = .low → c ≠ ⟨.pwm, 50⟩ := by
    rintro c low rfl
    cases low
  exact stopped _ rfl (reversing .timer0).2

end Adas.Esp
