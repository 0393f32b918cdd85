import Mathlib.Algebra.Order.Field.Rat
import Mathlib.Data.List.Sort
import Adas.Lib.Run

/-!
The decision loop of the ECU (`ECU_RASP/main.py`, `get_median_distances_thread`).

One iteration drains the two ultrasonic batches, takes the smaller of their
medians, binds the distance limits from the speed, decides with the counts over
the last twenty recorded states, and sends one message. The flags are as
shipped (`ACTIVE_SENSOR0`, `ACTIVE_SENSOR1` true, `ACTIVE__CAMERA` false) and
the program runs without `__debug__`. Distances and speeds are exact rationals.

`AUTOBRAKE_DIST` and `COLLISION_DIST` are locals of the function, because it
assigns them: they are `Option` fields here, and reading one that no iteration
has bound raises.
-/

namespace Adas.Ecu

/-! ### Constants -/

def autobrakeDistStage1 : ℚ := 16
def collisionDistState1 : ℚ := 25
def autobrakeDistStage2 : ℚ := 16
def collisionDistState2 : ℚ := 25
def autobrakeDistStage3 : ℚ := 16
def collisionDistState3 : ℚ := 25

def lessThanValueStage1 : ℚ := 5
def lessThanValueStage2 : ℚ := 25
def lessThanValueStage3 : ℚ := 80

def eventsArraySize : ℕ := 20
def countAutobrakeFalseAlarm : ℕ := 6
def countPrecollisionFalseAlarm : ℕ := 4
def countNormalFalseAlarm : ℕ := 4

/-- The state codes `NORMAL_STATE_ID`, `PRECOLLISION_STATE_ID` and
`AUTOBRAKE_STATE_ID`. -/
inductive StateId where
  | normal | precollision | autobrake
  deriving DecidableEq, Repr

/-- The integer the program stores for a state. -/
def StateId.id : StateId → ℕ
  | .normal => 0
  | .precollision => 1
  | .autobrake => 2

/-! ### Data -/

/-- What raises in the loop: a local read before any iteration bound it. -/
inductive PyError where
  | unboundLocal (name : String)
  deriving DecidableEq, Repr

/-- What one iteration finds: the two batches the sensor threads appended since
the last one, and the value of `current_speed`. -/
structure CycleInput where
  sensor0Distances : List ℚ
  sensor1Distances : List ℚ
  currentSpeed : ℚ
  deriving DecidableEq, Repr

/-- The globals and locals that survive an iteration. -/
structure EcuState where
  i : Fin eventsArraySize
  lastStates : Vector StateId eventsArraySize
  currentState : StateId
  autobrakeDist : Option ℚ
  collisionDist : Option ℚ
  deriving DecidableEq

/-- The state in which the thread starts. -/
def EcuState.init : EcuState where
  i := ⟨0, by decide⟩
  lastStates := Vector.replicate eventsArraySize .normal
  currentState := .normal
  autobrakeDist := none
  collisionDist := none

/-- `str(current_state) + '_' + str(i)`, before encoding. -/
structure Message where
  state : StateId
  i : Fin eventsArraySize
  deriving DecidableEq, Repr

/-- Python's `str` of a non-negative integer, encoded. -/
def strEncode (n : ℕ) : List UInt8 := (Nat.toDigits 10 n).map Char.toUInt8

/-- `str.encode(str(current_state) + '_' + str(i))`: no terminator. -/
def Message.encode (m : Message) : List UInt8 :=
  strEncode m.state.id ++ 95 :: strEncode m.i

/-! ### The fused distance -/

/-- `statistics.median`: the middle element of the sorted data, or the mean of
the two middle ones. The nonempty check of the callers is its precondition. -/
def median (data : List ℚ) (nonempty : 0 < data.length) : ℚ :=
  let sorted := data.insertionSort (· ≤ ·)
  have len : sorted.length = data.length := List.length_insertionSort ..
  have middle : data.length / 2 < sorted.length := by omega
  if data.length % 2 = 1 then
    sorted[data.length / 2]
  else
    have below : data.length / 2 - 1 < sorted.length := by omega
    (sorted[data.length / 2 - 1] + sorted[data.length / 2]) / 2

/-- The value a sensor contributes: its median, or 123.44 when the batch is
empty (`COM PROBLEMAS`). -/
def sensorMedian (distances : List ℚ) : ℚ :=
  if nonempty : 0 < distances.length then median distances nonempty else 123.44

/-- `less_distance = min(sensor0_median, sensor1_median)`. -/
def CycleInput.lessDistance (x : CycleInput) : ℚ :=
  min (sensorMedian x.sensor0Distances) (sensorMedian x.sensor1Distances)

/-- Both sensors reading `d` once, at standstill. -/
def CycleInput.still (d : ℚ) : CycleInput := ⟨[d], [d], 0⟩

@[simp] theorem CycleInput.lessDistance_still (d : ℚ) : (still d).lessDistance = d := by
  simp [lessDistance, still, sensorMedian, median]

/-! ### The limits -/

/-- The `if`/`elif` chain on the speed. It has no `else`: from stage 3 on the
limits keep what an earlier iteration bound, if any did. -/
def EcuState.setLimits (e : EcuState) (currentSpeed : ℚ) : EcuState :=
  if currentSpeed < lessThanValueStage1 then
    { e with autobrakeDist := some autobrakeDistStage1, collisionDist := some collisionDistState1 }
  else if currentSpeed < lessThanValueStage2 then
    { e with autobrakeDist := some autobrakeDistStage2, collisionDist := some collisionDistState2 }
  else if currentSpeed < lessThanValueStage3 then
    { e with autobrakeDist := some autobrakeDistStage3, collisionDist := some collisionDistState3 }
  else e

/-- Reading a local. -/
def readLocal (name : String) : Option ℚ → Except PyError ℚ
  | none => .error (.unboundLocal name)
  | some value => .ok value

/-! ### The decision -/

/-- What a branch of the decision does: the value it assigns to `current_state`,
if it assigns one, and the code it stores in `last_states[i]`. -/
structure Decision where
  assigned : Option StateId
  recorded : StateId
  deriving DecidableEq, Repr

/-- `less_distance < AUTOBRAKE_DIST`: a suppressed alarm is recorded only as a
possible collision. -/
def autobrakeBranch (lastStates : Vector StateId eventsArraySize) : Decision :=
  if lastStates.count .precollision + lastStates.count .autobrake > countAutobrakeFalseAlarm then
    ⟨some .autobrake, .autobrake⟩
  else
    ⟨none, .precollision⟩

/-- `less_distance < COLLISION_DIST`. -/
def collisionBranch (lastStates : Vector StateId eventsArraySize) : Decision :=
  if lastStates.count .precollision > countPrecollisionFalseAlarm then
    ⟨some .precollision, .precollision⟩
  else
    ⟨none, .precollision⟩

/-- The distance is safe. -/
def normalBranch (lastStates : Vector StateId eventsArraySize) : Decision :=
  if lastStates.count .normal > countNormalFalseAlarm then
    ⟨some .normal, .normal⟩
  else
    ⟨none, .normal⟩

/-- Lines 268 to 306. `COLLISION_DIST` is read only when the first test fails. -/
def EcuState.decide (e : EcuState) (lessDistance : ℚ) : Except PyError Decision := do
  let autobrakeDist ← readLocal "AUTOBRAKE_DIST" e.autobrakeDist
  if lessDistance < autobrakeDist then
    return autobrakeBranch e.lastStates
  else
    let collisionDist ← readLocal "COLLISION_DIST" e.collisionDist
    if lessDistance < collisionDist then
      return collisionBranch e.lastStates
    else
      return normalBranch e.lastStates

/-- `i = 0 if i>=(EVENTS_ARRAY_SIZE-1) else i+1`. -/
def nextIndex (i : Fin eventsArraySize) : Fin eventsArraySize :=
  if last : i.val ≥ eventsArraySize - 1 then ⟨0, by decide⟩ else ⟨i.val + 1, by omega⟩

/-- What a decision leaves in `current_state` and `last_states`. -/
def EcuState.apply (e : EcuState) (d : Decision) : EcuState :=
  { e with
    currentState := d.assigned.getD e.currentState
    lastStates := e.lastStates.set e.i d.recorded }

/-! ### The loop -/

/-- One iteration: the message goes out before `i` moves on. -/
def cycle (e : EcuState) (x : CycleInput) : Except PyError (EcuState × Message) := do
  let e := e.setLimits x.currentSpeed
  let d ← e.decide x.lessDistance
  let e := e.apply d
  return ({ e with i := nextIndex e.i }, ⟨e.currentState, e.i⟩)

/-- The loop from its initial state, over a list of iterations. -/
def getMedianDistancesThread (xs : List CycleInput) : Except PyError (EcuState × List Message) :=
  Lib.runOut cycle EcuState.init xs

end Adas.Ecu
