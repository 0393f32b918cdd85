import Adas.Esp.Direction
import Adas.Esp.Pulse

/-!
The motors as the firmware commands them.

MCPWM keeps a mode and a duty for each of four operators, and a motor function
changes only some of them: a stop keeps all duties, a drive the other side's. `Car`
keeps one signed power a motor, and where the brake is. Every run of the two tasks
is a run of `Car` (`motors_refine`), so nothing stored before the last command is
ever driven. What the car does after a brake follows from it
(`stands_until_packet`).
-/

namespace Adas.Esp

open Lib

/-! ### The car -/

/-- Where `emergency_brake` is, at a point where its task blocks. -/
inductive Phase where
  /-- Not running. -/
  | idle
  /-- In its delay of 120 ms. -/
  | reversing
  /-- In its delay of 880 ms. -/
  | standing
  deriving DecidableEq, Repr

/-- The calls it has left to make. -/
def Phase.left : Phase → List Call
  | .idle => []
  | .reversing => brushedMotorStop .timer0 ++ brushedMotorStop .timer1
      ++ [.vTaskDelay 880, .gpioSetLevel false]
  | .standing => [.gpioSetLevel false]

theorem Phase.idle_of_left {p : Phase} (none : p.left = []) : p = .idle := by
  cases p with
  | idle => rfl
  | reversing => simp [left, brushedMotorStop] at none
  | standing => simp [left] at none

/-- The two tasks, with a signed power in percent for each motor: forward is positive. -/
structure Car where
  reader : Reader
  phase : Phase
  drive : Timer → ℚ

def Car.init : Car := ⟨Reader.init, .idle, fun _ => 0⟩

/-- What a branch of `mcpwm_motor_control` asks of each motor. -/
def MotorBranch.drive (dutyX dutyY : ℚ) : MotorBranch → Timer → ℚ
  | .turnRight, .timer0 => dutyX
  | .turnRight, .timer1 => dutyX / 3
  | .turnLeft, .timer0 => dutyX / 3
  | .turnLeft, .timer1 => dutyX
  | .forward, _ => dutyY
  | .reverse, _ => -dutyY
  | .stop, _ => 0

/-- What a packet asks of each motor. -/
def Car.steered (c : Car) (ind : DataInd) : Timer → ℚ :=
  (motorBranch c.reader.currentState ind.xAxis.toInt ind.yAxis.toInt).drive
    ind.xAxis.toInt.natAbs ind.yAxis.toInt.natAbs

/-- One segment. Only the three that command the motors change their power. -/
def Car.step (c : Car) : Segment → Option Car
  | .dataInd ind => some { c with drive := c.steered ind }
  | .read data =>
      match c.phase with
      | .idle =>
          let (reader, brakes) := c.reader.receive data
          if brakes then some ⟨reader, .reversing, fun _ => -50⟩ else some { c with reader }
      | _ => none
  | .resume =>
      match c.phase with
      | .idle => none
      | .reversing => some { c with phase := .standing, drive := fun _ => 0 }
      | .standing => some { c with phase := .idle }

theorem Car.step_cases {c c' : Car} {s : Segment} (h : c.step s = some c') :
    (∃ ind, s = .dataInd ind ∧ c' = { c with drive := c.steered ind }) ∨
    (∃ data, s = .read data ∧ c.phase = .idle ∧ (c.reader.receive data).2 = true ∧
      c' = ⟨(c.reader.receive data).1, .reversing, fun _ => -50⟩) ∨
    (∃ data, s = .read data ∧ c.phase = .idle ∧ (c.reader.receive data).2 = false ∧
      c' = { c with reader := (c.reader.receive data).1 }) ∨
    (s = .resume ∧ c.phase = .reversing ∧
      c' = { c with phase := .standing, drive := fun _ => 0 }) ∨
    (s = .resume ∧ c.phase = .standing ∧ c' = { c with phase := .idle }) := by
  obtain ⟨reader, phase, drive⟩ := c
  cases s with
  | dataInd ind => exact Or.inl ⟨ind, rfl, (Option.some.inj h).symm⟩
  | read data =>
      cases phase with
      | idle =>
          simp only [step] at h
          split at h
          · exact Or.inr (Or.inl ⟨data, rfl, rfl, ‹_›, (Option.some.inj h).symm⟩)
          · exact Or.inr (Or.inr (Or.inl ⟨data, rfl, rfl, Bool.eq_false_iff.mpr ‹_›,
              (Option.some.inj h).symm⟩))
      | reversing => cases h
      | standing => cases h
  | resume =>
      cases phase with
      | idle => cases h
      | reversing => exact Or.inr (Or.inr (Or.inr (Or.inl ⟨rfl, rfl, (Option.some.inj h).symm⟩)))
      | standing => exact Or.inr (Or.inr (Or.inr (Or.inr ⟨rfl, rfl, (Option.some.inj h).symm⟩)))

/-! ### What the registers say -/

/-- What an operator delivers. -/
def Channel.power (c : Channel) : ℚ :=
  match c.mode with
  | .pwm => c.duty
  | .low => 0

theorem Channel.power_of_low {c : Channel} (low : c.mode = .low) : c.power = 0 := by
  rw [power, low]

/-- The two operators of a motor deliver a signed power, on one side only. -/
structure Delivers (p : ℚ) (operators : Opr → Channel) : Prop where
  forward : (operators .a).power = max p 0
  backward : (operators .b).power = max (-p) 0

theorem delivers_forward {operators : Opr → Channel} {duty : ℚ} (nonneg : 0 ≤ duty)
    (forward : (operators .a).power = duty) (backward : (operators .b).power = 0) :
    Delivers duty operators :=
  ⟨forward.trans (max_eq_left nonneg).symm,
    backward.trans (max_eq_right (neg_nonpos.mpr nonneg)).symm⟩

theorem delivers_backward {operators : Opr → Channel} {duty : ℚ} (nonneg : 0 ≤ duty)
    (forward : (operators .a).power = 0) (backward : (operators .b).power = duty) :
    Delivers (-duty) operators :=
  ⟨forward.trans (max_eq_right (neg_nonpos.mpr nonneg)).symm, by
    rw [neg_neg]
    exact backward.trans (max_eq_left nonneg).symm⟩

theorem Delivers.not_driven_forward {p : ℚ} {operators : Opr → Channel} (h : Delivers p operators)
    (nonpos : p ≤ 0) : ¬ (operators .a).Driven := by
  rintro ⟨pwm, positive⟩
  have power := h.forward
  rw [max_eq_right nonpos, Channel.power, pwm] at power
  exact absurd power positive.ne'

theorem Delivers.not_driven {operators : Opr → Channel} (h : Delivers 0 operators) (o : Opr) :
    ¬ (operators o).Driven := by
  rintro ⟨pwm, positive⟩
  cases o with
  | a => exact h.not_driven_forward le_rfl ⟨pwm, positive⟩
  | b =>
      have power := h.backward
      rw [neg_zero, max_self, Channel.power, pwm] at power
      exact absurd power positive.ne'

/-- The two tasks are where `Car` is, and the motor unit delivers what it says. -/
structure Commanded (e : EspState) (c : Car) : Prop where
  reader : e.reader = c.reader
  brake : e.brake = c.phase.left
  motors : ∀ t, Delivers (c.drive t) (e.outputs.mcpwm t)

theorem commanded_init : Commanded EspState.init Car.init :=
  ⟨rfl, rfl, fun _ => ⟨rfl, rfl⟩⟩

/-- Every branch writes all the registers that decide the power. -/
theorem MotorBranch.delivers {dutyX dutyY : ℚ} (b : MotorBranch) (nonnegX : 0 ≤ dutyX)
    (nonnegY : 0 ≤ dutyY) (out : Outputs) (t : Timer) :
    Delivers (b.drive dutyX dutyY t) ((runCalls (b.calls dutyX dutyY) out).mcpwm t) := by
  have third : 0 ≤ dutyX / 3 := div_nonneg nonnegX (by norm_num)
  cases b with
  | turnRight =>
      cases t with
      | timer0 => exact delivers_forward nonnegX rfl rfl
      | timer1 => exact delivers_forward third rfl rfl
  | turnLeft =>
      cases t with
      | timer0 => exact delivers_forward third rfl rfl
      | timer1 => exact delivers_forward nonnegX rfl rfl
  | forward => cases t <;> exact delivers_forward nonnegY rfl rfl
  | reverse => cases t <;> exact delivers_backward nonnegY rfl rfl
  | stop => cases t <;> exact ⟨rfl, rfl⟩

/-! ### Every run -/

/-- A segment of the two tasks is the same segment of the car. -/
theorem Commanded.step {e e' : EspState} {c : Car} {s : Segment} (h : Commanded e c)
    (stepped : step e s = some e') : ∃ c', c.step s = some c' ∧ Commanded e' c' := by
  rcases step_cases stepped with ⟨ind, rfl, rfl⟩ | ⟨data, rfl, idle, rfl⟩ | ⟨rfl, busy, rfl⟩
  · refine ⟨_, rfl, h.reader, h.brake, fun t => ?_⟩
    simp only [EspState.espSppCb, mcpwmMotorControl_eq, Car.steered, h.reader]
    exact MotorBranch.delivers _ (Nat.cast_nonneg _) (Nat.cast_nonneg _) _ t
  · have waiting : c.phase = .idle := Phase.idle_of_left (h.brake.symm.trans idle)
    cases brakes : (e.reader.receive data).2 with
    | true =>
        refine ⟨⟨(c.reader.receive data).1, .reversing, fun _ => -50⟩, ?_, ?_⟩
        · simp only [Car.step, waiting]
          rw [← h.reader, if_pos brakes]
        rw [EspState.read_of_brakes brakes, ← h.reader]
        refine ⟨rfl, runToDelay_emergencyBrake e.outputs, fun t => ?_⟩
        obtain ⟨low, pulse⟩ := reversing_emergencyBrake e.outputs t
        refine delivers_backward (by norm_num) ?_ ?_
        · exact Channel.power_of_low low
        · exact congrArg Channel.power pulse
    | false =>
        refine ⟨{ c with reader := (c.reader.receive data).1 }, ?_, ?_⟩
        · simp only [Car.step, waiting]
          rw [← h.reader, if_neg (Bool.eq_false_iff.mp brakes)]
        rw [EspState.read_of_not_brakes brakes, ← h.reader]
        exact ⟨rfl, h.brake, h.motors⟩
  · cases phase : c.phase with
    | idle =>
        rw [h.brake, phase] at busy
        exact absurd rfl busy
    | reversing =>
        refine ⟨{ c with phase := .standing, drive := fun _ => 0 }, ?_, h.reader, ?_, fun t => ?_⟩
        · simp only [Car.step, phase]
        · rw [h.brake, phase]
          rfl
        · rw [h.brake, phase]
          cases t <;> exact ⟨rfl, rfl⟩
    | standing =>
        refine ⟨{ c with phase := .idle }, ?_, h.reader, ?_, fun t => ?_⟩
        · simp only [Car.step, phase]
        · rw [h.brake, phase]
          rfl
        · rw [h.brake, phase]
          exact h.motors t

theorem Commanded.run {e e' : EspState} {c : Car} {as : List Segment} (h : Commanded e c)
    (ran : Lib.run Esp.step e as = some e') :
    ∃ c', Lib.run Car.step c as = some c' ∧ Commanded e' c' :=
  run_lockstep (fun _ _ _ _ related stepped => related.step stepped) h ran

/-- Every run of the two tasks is the same run of the car: what the motor unit
delivers is the last command, whatever is stored in its registers. -/
theorem motors_refine (as : List Segment) (e : EspState)
    (reached : run step EspState.init as = some e) :
    ∃ c, run Car.step Car.init as = some c ∧ Commanded e c :=
  commanded_init.run reached

/-- A warning, a brake against full speed ahead, and a stick pulled back in its pulse. -/
theorem motors_refine_braking :
    let ahead := Segment.dataInd (DataInd.ofBytes [48, 50, 48, 48, 51, 48, 48])
    let back := Segment.dataInd (DataInd.ofBytes [48, 50, 48, 48, 49, 48, 48])
    let as := [.read [49], ahead, .read [50], back, .resume, .resume, ahead]
    ∃ e c, run step EspState.init as = some e ∧ run Car.step Car.init as = some c ∧
      Commanded e c := by
  intro ahead back as
  obtain ⟨c, ran, commanded⟩ := motors_refine as _ rfl
  exact ⟨_, c, rfl, ran, commanded⟩

/-! ### After a brake -/

/-- Reversing at 50 in the pulse, standing otherwise. -/
def Car.Braked (c : Car) : Prop := ∀ t, c.drive t = if c.phase = .reversing then -50 else 0

/-- Only a packet ends that: a read can brake again, or change the state. -/
theorem Car.Braked.step {c c' : Car} {s : Segment} (h : c.Braked) (stepped : c.step s = some c')
    (other : ∀ ind, s ≠ .dataInd ind) : c'.Braked := by
  rcases Car.step_cases stepped with ⟨ind, rfl, rfl⟩ | ⟨data, rfl, -, -, rfl⟩ |
    ⟨data, rfl, -, -, rfl⟩ | ⟨rfl, -, rfl⟩ | ⟨rfl, standing, rfl⟩
  · exact absurd rfl (other ind)
  · exact fun t => rfl
  · exact h
  · exact fun t => rfl
  · intro t
    have still := h t
    rw [standing] at still
    exact still

theorem Car.Braked.run {c c' : Car} {bs : List Segment} (h : c.Braked)
    (ran : Lib.run Car.step c bs = some c') (packets : ∀ ind, .dataInd ind ∉ bs) : c'.Braked := by
  refine run_induct (P := fun bs c => (∀ ind, .dataInd ind ∉ bs) → c.Braked) (fun _ => h) ?_ ran
    packets
  intro bs c s c' before stepped packets
  refine (before fun ind mem => packets ind (List.mem_append_left _ mem)).step stepped ?_
  rintro ind rfl
  exact packets ind (by simp)

/-- After the ECU braked the car goes nowhere but backwards in a pulse, and stands
outside of one, until the joystick sends a packet: whatever the ECU goes on to say,
a return to normal and further brakes included. -/
theorem stands_until_packet (as bs : List Segment) (data : List UInt8) (e e' : EspState)
    (reached : run step EspState.init as = some e)
    (brakes : (e.reader.receive data).2 = true)
    (ran : run step e (.read data :: bs) = some e') (packets : ∀ ind, .dataInd ind ∉ bs) :
    (∀ t, ¬ (e'.outputs.mcpwm t .a).Driven) ∧
      (e'.brake ≠ Phase.reversing.left → ∀ t o, ¬ (e'.outputs.mcpwm t o).Driven) := by
  obtain ⟨c, -, commanded⟩ := commanded_init.run reached
  obtain ⟨e₁, first, rest⟩ := run_cons_eq_some.mp ran
  obtain ⟨c₁, firstCar, commanded₁⟩ := commanded.step first
  obtain ⟨c', restCar, commanded'⟩ := commanded₁.run rest
  have start : c₁.Braked := by
    rcases Car.step_cases firstCar with ⟨ind, same, -⟩ | ⟨read, -, -, -, rfl⟩ |
      ⟨read, same, -, quiet, -⟩ | ⟨same, -, -⟩ | ⟨same, -, -⟩
    · cases same
    · exact fun t => rfl
    · cases same
      rw [← commanded.reader, brakes] at quiet
      cases quiet
    · cases same
    · cases same
  have braked := start.run restCar packets
  constructor
  · intro t
    refine (commanded'.motors t).not_driven_forward ?_
    rw [braked t]
    split <;> norm_num
  · intro outside t o
    have standing : c'.phase ≠ .reversing := by
      intro reversing
      rw [commanded'.brake, reversing] at outside
      exact outside rfl
    have still := commanded'.motors t
    rw [braked t, if_neg standing] at still
    exact still.not_driven o

/-- The ECU brakes at full speed ahead, says 0, brakes again and says 0 once more. -/
theorem stands_until_packet_twice :
    let as := [Segment.dataInd (DataInd.ofBytes [48, 50, 48, 48, 51, 48, 48])]
    let bs := [Segment.resume, .resume, .read [48], .read [50], .resume, .resume, .read [48]]
    ∃ e e', run step EspState.init as = some e ∧ run step e (.read [50] :: bs) = some e' ∧
      e'.reader.currentState = 0 ∧ ∀ t o, ¬ (e'.outputs.mcpwm t o).Driven := by
  intro as bs
  have packets : ∀ ind, .dataInd ind ∉ bs := by
    intro ind mem
    simp [bs] at mem
  have stands := stands_until_packet as bs [50] _ _ rfl rfl rfl packets
  exact ⟨_, _, rfl, rfl, rfl, stands.2 (by decide)⟩

end Adas.Esp
