import Adas.Esp.Motor

/-!
The two tasks of the ESP32 that reach the motors: the UART task
(`get_ECU_serial_parameters_TASK`, `uart_handler.c`) and the Bluetooth data
callback (`esp_spp_cb`, `bt_handler.c`).

A step of `step` is what runs between two points where a task can block: a
complete data callback, a read up to its next blocking point, or the stretch of
`emergency_brake` after one of its delays. `Adas.Esp.Bridge` takes every single
driver call as a step and proves the steps here to be particular schedules of it.
-/

namespace Adas.Esp

open Lib

/-! ### The reader -/

/-- `last_state` of the UART task and the global `current_state`. -/
structure Reader where
  lastState : UInt8
  currentState : UInt8
  deriving DecidableEq, Repr

def Reader.init : Reader := ⟨0, 0⟩

/-- The loop body after `uart_read_bytes` returned `data`; the flag says whether
it calls `emergency_brake`. Only the first byte is looked at. -/
def Reader.receive (r : Reader) (data : List UInt8) : Reader × Bool :=
  match data with
  | [] => (r, false)
  | byte :: _ =>
      let lastState := r.currentState
      let currentState := byte - 48
      (⟨lastState, currentState⟩, currentState ≠ lastState && currentState = 2)

/-- The loop over successive reads: its variables, and how often it called
`emergency_brake`. -/
def receiveAll (reads : List (List UInt8)) : Reader × ℕ :=
  reads.foldl (fun (r, n) data => ((r.receive data).1, n + (r.receive data).2.toNat))
    (Reader.init, 0)

@[simp] theorem receiveAll_nil : receiveAll [] = (Reader.init, 0) := rfl

@[simp] theorem receiveAll_snoc (reads : List (List UInt8)) (data : List UInt8) :
    receiveAll (reads ++ [data]) =
      (((receiveAll reads).1.receive data).1,
        (receiveAll reads).2 + ((receiveAll reads).1.receive data).2.toNat) := by
  simp [receiveAll]

/-- A read that ends in state 2 without braking found state 2. -/
theorem Reader.braking_of_quiet {r : Reader} {data : List UInt8}
    (quiet : (r.receive data).2 = false) (braking : (r.receive data).1.currentState = 2) :
    r.currentState = 2 := by
  cases data with
  | nil => exact braking
  | cons byte rest =>
      by_contra changed
      have entered : byte - 48 ≠ r.currentState := fun same => changed (same ▸ braking)
      simp only [receive, Bool.and_eq_false_iff, decide_eq_false_iff_not] at quiet
      exact quiet.elim (fun h => h entered) (fun h => h braking)

/-- Reading the state it is in, the UART task stays in it and does not brake. -/
theorem Reader.receive_same (r : Reader) (data : List UInt8)
    (same : ∀ byte rest, data = byte :: rest → byte - 48 = r.currentState) :
    (r.receive data).1.currentState = r.currentState ∧ (r.receive data).2 = false := by
  cases data with
  | nil => exact ⟨rfl, rfl⟩
  | cons byte rest => simp [receive, same byte rest rfl]

/-! ### The data callback -/

/-- `ESP_SPP_DATA_IND_EVT`: the length of the payload, and the memory its data
pointer points to. -/
structure DataInd where
  len : ℕ
  data : ℕ → UInt8

/-- A payload with nothing behind it. -/
def DataInd.ofBytes (bytes : List UInt8) : DataInd := ⟨bytes.length, fun k => bytes.getD k 0⟩

/-- The integer value of the three-digit field from byte `k` on, offset included
(`HEX_OFFSET` 48, `JOYSTICK_OFFSET` 200). -/
def DataInd.field (ind : DataInd) (k : ℕ) : ℤ :=
  ((ind.data k).toNat - 48) * 100 + ((ind.data (k + 1)).toNat - 48) * 10
    + ((ind.data (k + 2)).toNat - 48) - 200

/-- The values stored in the `int8_t` globals `x_axis` and `y_axis`. -/
def DataInd.xAxis (ind : DataInd) : Int8 := Int8.ofInt (ind.field 1)
def DataInd.yAxis (ind : DataInd) : Int8 := Int8.ofInt (ind.field 4)

/-! ### Segments -/

/-- The globals of both tasks, the outputs, and what the UART task has left to
run of `emergency_brake`: nothing when it is blocked in `uart_read_bytes`. -/
structure EspState where
  reader : Reader
  xAxis : Int8
  yAxis : Int8
  outputs : Outputs
  brake : List Call

def EspState.init : EspState := ⟨Reader.init, 0, 0, Outputs.init, []⟩

/-- One complete data callback. -/
def EspState.espSppCb (e : EspState) (ind : DataInd) : EspState :=
  { e with
    xAxis := ind.xAxis
    yAxis := ind.yAxis
    outputs := runCalls (mcpwmMotorControl e.reader.currentState ind.xAxis ind.yAxis) e.outputs }

/-- Run calls of the UART task up to its next blocking point. -/
def EspState.runUart (e : EspState) (calls : List Call) : EspState :=
  let (brake, outputs) := runToDelay calls e.outputs
  { e with brake, outputs }

/-- A read, up to the next blocking point. -/
def EspState.read (e : EspState) (data : List UInt8) : EspState :=
  let (reader, brakes) := e.reader.receive data
  if brakes then { e with reader }.runUart emergencyBrake else { e with reader }

inductive Segment where
  | dataInd (ind : DataInd)
  | read (data : List UInt8)
  | resume

/-- One segment; a read needs the task in `uart_read_bytes`, a resumption needs
it in one of the delays. -/
def step (e : EspState) : Segment → Option EspState
  | .dataInd ind => some (e.espSppCb ind)
  | .read data => if e.brake = [] then some (e.read data) else none
  | .resume => if e.brake = [] then none else some (e.runUart e.brake)

/-- What a segment can do, one line each. -/
theorem step_cases {e e' : EspState} {s : Segment} (h : step e s = some e') :
    (∃ ind, s = .dataInd ind ∧ e' = e.espSppCb ind) ∨
    (∃ data, s = .read data ∧ e.brake = [] ∧ e' = e.read data) ∨
    (s = .resume ∧ e.brake ≠ [] ∧ e' = e.runUart e.brake) := by
  cases s with
  | dataInd ind => exact Or.inl ⟨ind, rfl, (Option.some.inj h).symm⟩
  | read data =>
      simp only [step] at h
      split at h
      · exact Or.inr (Or.inl ⟨data, rfl, ‹_›, (Option.some.inj h).symm⟩)
      · cases h
  | resume =>
      simp only [step] at h
      split at h
      · cases h
      · exact Or.inr (Or.inr ⟨rfl, ‹_›, (Option.some.inj h).symm⟩)

/-- Packets are handled whatever the UART task is doing. -/
theorem run_dataInds (e : EspState) (inds : List DataInd) :
    run step e (inds.map .dataInd) = some (inds.foldl EspState.espSppCb e) := by
  have enabled : ∀ e ind, step e (.dataInd ind) = some (EspState.espSppCb e ind) :=
    fun _ _ => rfl
  exact run_map_eq_some enabled e inds

/-! ### Fields a segment leaves alone -/

@[simp] theorem EspState.espSppCb_reader (e : EspState) (ind : DataInd) :
    (e.espSppCb ind).reader = e.reader := rfl

@[simp] theorem EspState.runUart_reader (e : EspState) (calls : List Call) :
    (e.runUart calls).reader = e.reader := rfl

theorem EspState.read_of_brakes {e : EspState} {data : List UInt8}
    (brakes : (e.reader.receive data).2 = true) :
    e.read data = { e with reader := (e.reader.receive data).1 }.runUart emergencyBrake :=
  if_pos brakes

theorem EspState.read_of_not_brakes {e : EspState} {data : List UInt8}
    (quiet : (e.reader.receive data).2 = false) :
    e.read data = { e with reader := (e.reader.receive data).1 } :=
  if_neg (Bool.eq_false_iff.mp quiet)

@[simp] theorem EspState.read_reader (e : EspState) (data : List UInt8) :
    (e.read data).reader = (e.reader.receive data).1 := by
  cases brakes : (e.reader.receive data).2 with
  | true => rw [read_of_brakes brakes, runUart_reader]
  | false => rw [read_of_not_brakes brakes]

/-- The reads among the segments. -/
def readsOf (as : List Segment) : List (List UInt8) :=
  as.filterMap fun
    | .read data => some data
    | _ => none

/-- Only a read that returns a byte changes `current_state`. -/
theorem step_currentState {e e' : EspState} {s : Segment} (h : step e s = some e')
    (quiet : ∀ byte rest, s ≠ .read (byte :: rest)) :
    e'.reader.currentState = e.reader.currentState := by
  rcases step_cases h with ⟨ind, rfl, rfl⟩ | ⟨data, rfl, -, rfl⟩ | ⟨rfl, -, rfl⟩
  · rfl
  · cases data with
    | nil => rfl
    | cons byte rest => exact absurd rfl (quiet byte rest)
  · rfl

/-! ### The lockout -/

/-- In the brake state both forward operators are forced low, and nothing the
UART task has left to run re-enables one. -/
structure Locked (e : EspState) : Prop where
  low : e.reader.currentState = 2 → ForwardLow e.outputs
  pending : NoForward e.brake

theorem locked_init : Locked EspState.init :=
  ⟨fun h => absurd h (by decide), fun _ h => absurd h List.not_mem_nil⟩

/-- Running calls that re-enable no forward operator keeps the lockout. -/
theorem Locked.runUart {e : EspState} (calls : List Call) (safe : NoForward calls)
    (low : e.reader.currentState = 2 → ForwardLow (runToDelay calls e.outputs).2) :
    Locked (e.runUart calls) :=
  ⟨low, runToDelay_noForward e.outputs safe⟩

/-- A read either leaves the brake state as it found it, or enters it through
the brake, or leaves it. -/
theorem Locked.read {e : EspState} (h : Locked e) (idle : e.brake = []) (data : List UInt8) :
    Locked (e.read data) := by
  cases brakes : (e.reader.receive data).2 with
  | true =>
      rw [EspState.read_of_brakes brakes]
      exact Locked.runUart _ emergencyBrake_noForward fun _ => emergencyBrake_forwardLow _
  | false =>
      rw [EspState.read_of_not_brakes brakes]
      exact ⟨fun braking => h.low (Reader.braking_of_quiet brakes braking),
        fun c pending => absurd (idle ▸ pending) List.not_mem_nil⟩

theorem Locked.step {e e' : EspState} {s : Segment} (h : Locked e) (stepped : step e s = some e') :
    Locked e' := by
  rcases step_cases stepped with ⟨ind, rfl, rfl⟩ | ⟨data, rfl, idle, rfl⟩ | ⟨rfl, -, rfl⟩
  · refine ⟨?_, h.pending⟩
    intro braking
    have motor := mcpwmMotorControl_noForward ind.xAxis ind.yAxis
    rw [← show e.reader.currentState = 2 from braking] at motor
    exact runCalls_forwardLow motor (h.low braking)
  · exact h.read idle data
  · exact Locked.runUart _ h.pending fun braking => runToDelay_forwardLow h.pending (h.low braking)

theorem locked_of_run {as : List Segment} {e : EspState}
    (h : run step EspState.init as = some e) : Locked e :=
  run_invariant locked_init (fun _ _ _ locked stepped => locked.step stepped) h

/-- A forced-low operator does not conduct. -/
theorem not_driven_of_low {c : Channel} (low : c.mode = .low) : ¬ c.Driven := by
  rintro ⟨pwm, -⟩
  rw [low] at pwm
  cases pwm

/-- Whatever the ESP32 receives, in state 2 no motor is driven forward. -/
theorem forward_locked_out (as : List Segment) (e : EspState)
    (h : run step EspState.init as = some e) (braking : e.reader.currentState = 2) (t : Timer) :
    ¬ (e.outputs.mcpwm t .a).Driven :=
  not_driven_of_low ((locked_of_run h).low braking t)

/-- The joystick asks for full speed ahead, the ECU brakes, and the joystick asks
again while the brake is in its first delay. -/
theorem forward_locked_out_joystick :
    let ahead := Segment.dataInd (DataInd.ofBytes [48, 50, 48, 48, 51, 48, 48])
    ∃ e, run step EspState.init [ahead, .read [50, 95, 55], ahead] = some e ∧
      e.reader.currentState = 2 ∧ ∀ t, ¬ (e.outputs.mcpwm t .a).Driven := by
  intro ahead
  exact ⟨_, rfl, rfl, forward_locked_out [ahead, .read [50, 95, 55], ahead] _ rfl rfl⟩

end Adas.Esp
