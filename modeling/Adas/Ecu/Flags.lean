import Adas.Ecu.Filter

/-!
The decision loop under other flags than the shipped ones (`main.py`, the
parameters of `get_median_distances_thread`).

A sensor that is switched off has no batch, and its median stays an unbound
local; the median of the camera is computed and printed, and no one reads it.
So the flags decide between two behaviours only (`flags_decide`): with both
sensors on the loop is the shipped one, whatever the camera sees, and otherwise
its first iteration raises.
-/

namespace Adas.Ecu

open Lib

/-- `ACTIVE_SENSOR0`, `ACTIVE_SENSOR1` and `ACTIVE__CAMERA`. -/
structure Flags where
  activeSensor0 : Bool
  activeSensor1 : Bool
  activeCamera : Bool
  deriving DecidableEq, Repr

/-- What an iteration finds, with the list of the camera. -/
structure CameraInput extends CycleInput where
  cameraDistances : List ℚ
  deriving DecidableEq, Repr

/-- The locals that hold the medians, beside the rest. -/
structure FlagState where
  cameraMedian : Option ℚ
  sensor0Median : Option ℚ
  sensor1Median : Option ℚ
  ecu : EcuState
  deriving DecidableEq

def FlagState.init : FlagState := ⟨none, none, none, EcuState.init⟩

/-- Lines 209 to 219: an empty list leaves the median of the camera as it was. -/
def FlagState.drainCamera (s : FlagState) (active : Bool) (distances : List ℚ) : FlagState :=
  if active then
    if nonempty : 0 < distances.length then
      { s with cameraMedian := some (median distances nonempty) }
    else s
  else s

/-- Lines 221 to 232. -/
def FlagState.drainSensor0 (s : FlagState) (active : Bool) (distances : List ℚ) : FlagState :=
  if active then { s with sensor0Median := some (sensorMedian distances) } else s

/-- Lines 234 to 245. -/
def FlagState.drainSensor1 (s : FlagState) (active : Bool) (distances : List ℚ) : FlagState :=
  if active then { s with sensor1Median := some (sensorMedian distances) } else s

/-- One iteration. -/
def flagCycle (f : Flags) (s : FlagState) (x : CameraInput) :
    Except PyError (FlagState × Message) := do
  let s := s.drainCamera f.activeCamera x.cameraDistances
  let s := s.drainSensor0 f.activeSensor0 x.sensor0Distances
  let s := s.drainSensor1 f.activeSensor1 x.sensor1Distances
  let sensor0Median ← readLocal "sensor0_median" s.sensor0Median
  let sensor1Median ← readLocal "sensor1_median" s.sensor1Median
  let lessDistance := min sensor0Median sensor1Median
  let e := s.ecu.setLimits x.currentSpeed
  let d ← e.decide lessDistance
  let e := e.apply d
  return ({ s with ecu := { e with i := nextIndex e.i } }, ⟨e.currentState, e.i⟩)

/-- The loop, with its parameters. -/
def flagThread (f : Flags) (xs : List CameraInput) : Except PyError (FlagState × List Message) :=
  runOut (flagCycle f) FlagState.init xs

/-! ### The camera -/

@[simp] theorem FlagState.drainCamera_ecu (s : FlagState) (active : Bool) (distances : List ℚ) :
    (s.drainCamera active distances).ecu = s.ecu := by
  unfold drainCamera
  repeat' split
  all_goals rfl

@[simp] theorem FlagState.drainCamera_sensor0Median (s : FlagState) (active : Bool)
    (distances : List ℚ) : (s.drainCamera active distances).sensor0Median = s.sensor0Median := by
  unfold drainCamera
  repeat' split
  all_goals rfl

@[simp] theorem FlagState.drainCamera_sensor1Median (s : FlagState) (active : Bool)
    (distances : List ℚ) : (s.drainCamera active distances).sensor1Median = s.sensor1Median := by
  unfold drainCamera
  repeat' split
  all_goals rfl

/-! ### Both behaviours -/

/-- With both sensors on an iteration is one of the shipped loop. -/
theorem flagCycle_active {f : Flags} (on0 : f.activeSensor0 = true) (on1 : f.activeSensor1 = true)
    (s : FlagState) (x : CameraInput) :
    (flagCycle f s x).map (Prod.map FlagState.ecu id) = cycle s.ecu x.toCycleInput := by
  have distance : min (sensorMedian x.sensor0Distances) (sensorMedian x.sensor1Distances) =
      x.lessDistance := rfl
  simp only [flagCycle, cycle, on0, on1, FlagState.drainSensor0, FlagState.drainSensor1, if_true,
    readLocal, bind, Except.bind, FlagState.drainCamera_ecu, distance]
  cases (s.ecu.setLimits x.currentSpeed).decide x.lessDistance <;> rfl

/-- The local that an iteration reads unbound when a sensor is off. -/
def Flags.unbound (f : Flags) : String :=
  if f.activeSensor0 then "sensor1_median" else "sensor0_median"

/-- With a sensor off the first iteration raises. -/
theorem flagCycle_inactive {f : Flags} (off : (f.activeSensor0 && f.activeSensor1) = false)
    (x : CameraInput) : flagCycle f FlagState.init x = .error (.unboundLocal f.unbound) := by
  have unbound0 : FlagState.init.sensor0Median = none := rfl
  have unbound1 : FlagState.init.sensor1Median = none := rfl
  cases on0 : f.activeSensor0 with
  | false =>
      cases on1 : f.activeSensor1 <;>
        simp [flagCycle, FlagState.drainSensor0, FlagState.drainSensor1, Flags.unbound, on0, on1,
          unbound0, readLocal, bind, Except.bind]
  | true =>
      have off1 : f.activeSensor1 = false := by simpa [on0] using off
      simp [flagCycle, FlagState.drainSensor0, FlagState.drainSensor1, Flags.unbound, on0, off1,
        unbound1, readLocal, bind, Except.bind]

/-- Two behaviours: with both sensors on the loop sends what the shipped one does and
raises where it does, whatever the camera saw; with a sensor off it sends nothing
and raises at once. -/
theorem flags_decide (f : Flags) (xs : List CameraInput) :
    ((f.activeSensor0 && f.activeSensor1) = true →
      (flagThread f xs).map Prod.snd =
        (getMedianDistancesThread (xs.map CameraInput.toCycleInput)).map Prod.snd) ∧
    ((f.activeSensor0 && f.activeSensor1) = false → xs ≠ [] →
      flagThread f xs = .error (.unboundLocal f.unbound)) := by
  constructor
  · intro on
    obtain ⟨on0, on1⟩ := Bool.and_eq_true_iff.mp on
    have whole := runOut_map FlagState.ecu CameraInput.toCycleInput (flagCycle_active on0 on1)
      FlagState.init xs
    have sent := congrArg (Except.map Prod.snd) whole
    rw [getMedianDistancesThread, ← show FlagState.init.ecu = EcuState.init from rfl, ← sent,
      flagThread]
    cases runOut (flagCycle f) FlagState.init xs <;> rfl
  · intro off nonempty
    obtain ⟨x, rest, rfl⟩ := List.exists_cons_of_ne_nil nonempty
    simp only [flagThread, runOut, flagCycle_inactive off]

/-- The camera sees an obstacle that neither sensor does. -/
theorem flags_decide_camera :
    (flagThread ⟨true, true, true⟩
        (List.replicate 9 ⟨⟨[100], [100], 0⟩, [5]⟩)).map Prod.snd =
      (getMedianDistancesThread (List.replicate 9 ⟨[100], [100], 0⟩)).map Prod.snd ∧
    flagThread ⟨true, false, true⟩ [⟨⟨[10], [], 0⟩, [5]⟩] =
      .error (.unboundLocal "sensor1_median") :=
  ⟨(flags_decide _ _).1 rfl, (flags_decide _ _).2 rfl (by simp)⟩

end Adas.Ecu
