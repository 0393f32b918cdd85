import Mathlib.Logic.Function.Basic
import Adas.Lib.Mutex
import Adas.Ecu.Liveness

/-!
The threads of the ECU program (`main.py`), statement by statement.

Each sensor thread appends to its list under its lock; the decision loop takes
both lists under theirs, and the serial thread stores a speed whenever it likes.
A step is one statement of one thread; `Threads.sensorStep_cases` and `LoopStep`
say what each can do, and `Locking` is what the locks keep. `Adas.Ecu.Batches`
is what they are for.

The camera is inactive, as shipped, and the sensor threads are taken from the
point where a sample yielded a distance.
-/

namespace Adas.Ecu

open Lib

/-! ### Where each thread is -/

/-- `SENSOR0_ID` and `SENSOR1_ID`. -/
inductive SensorId where
  | sensor0 | sensor1
  deriving DecidableEq, Repr

/-- The next statement of a `sensor_thread`. -/
inductive SensorPc where
  /-- Taking a sample. -/
  | sampling
  | acquire (distance : ℚ)
  | append (distance : ℚ)
  | release
  deriving DecidableEq, Repr

/-- What ends the loop: a local that is not bound, or `statistics.median` of an
empty list, which leaves its lock taken. -/
inductive LoopError where
  | python (e : PyError)
  | statistics (k : SensorId)
  deriving DecidableEq, Repr

/-- The next statement of `get_median_distances_thread`. -/
inductive LoopPc where
  | acquire (k : SensorId)
  | len (k : SensorId)
  | median (k : SensorId)
  | clear (k : SensorId)
  /-- The `else` of an empty list. -/
  | missing (k : SensorId)
  | release (k : SensorId)
  /-- `less_distance = min(sensor0_median, sensor1_median)` -/
  | fuse
  | test1 | test2 | test3
  | decide
  | send
  | ended (e : LoopError)
  deriving DecidableEq, Repr

/-- The globals, the locals of the loop, the messages sent, and where everyone is.
`ecu` holds what survives an iteration; `median` the locals `sensor0_median` and
`sensor1_median`. -/
structure Threads where
  locked : SensorId → Bool
  distances : SensorId → List ℚ
  sensor : SensorId → SensorPc
  pc : LoopPc
  median : SensorId → Option ℚ
  lessDistance : ℚ
  currentSpeed : ℚ
  ecu : EcuState
  sent : List Message

def Threads.init : Threads where
  locked _ := false
  distances _ := []
  sensor _ := .sampling
  pc := .acquire .sensor0
  median _ := none
  lessDistance := 0
  currentSpeed := 0
  ecu := EcuState.init
  sent := []

/-! ### The statements -/

/-- The next statement of a sensor thread that has a distance. -/
def Threads.sensorStep (s : Threads) (k : SensorId) : Option Threads :=
  match s.sensor k with
  | .sampling => none
  | .acquire distance =>
      if s.locked k then none
      else some { s with
        locked := Function.update s.locked k true
        sensor := Function.update s.sensor k (.append distance) }
  | .append distance =>
      some { s with
        distances := Function.update s.distances k (s.distances k ++ [distance])
        sensor := Function.update s.sensor k .release }
  | .release =>
      some { s with
        locked := Function.update s.locked k false
        sensor := Function.update s.sensor k .sampling }

/-- After the second list the distances are fused. -/
def LoopPc.afterRelease : SensorId → LoopPc
  | .sensor0 => .acquire .sensor1
  | .sensor1 => .fuse

/-- The next statement of the loop. The last one, which moves `i` on, comes with
the message, and so does the pause. -/
def Threads.loopStep (s : Threads) : Option Threads :=
  match s.pc with
  | .acquire k =>
      if s.locked k then none
      else some { s with locked := Function.update s.locked k true, pc := .len k }
  | .len k => some { s with pc := if 0 < (s.distances k).length then .median k else .missing k }
  | .median k =>
      if nonempty : 0 < (s.distances k).length then
        some { s with
          median := Function.update s.median k (some (Ecu.median (s.distances k) nonempty))
          pc := .clear k }
      else some { s with pc := .ended (.statistics k) }
  | .clear k => some { s with distances := Function.update s.distances k [], pc := .release k }
  | .missing k =>
      some { s with median := Function.update s.median k (some 123.44), pc := .release k }
  | .release k =>
      some { s with locked := Function.update s.locked k false, pc := .afterRelease k }
  | .fuse =>
      match readLocal "sensor0_median" (s.median .sensor0),
          readLocal "sensor1_median" (s.median .sensor1) with
      | .ok median0, .ok median1 =>
          some { s with lessDistance := min median0 median1, pc := .test1 }
      | .ok _, .error e => some { s with pc := .ended (.python e) }
      | .error e, _ => some { s with pc := .ended (.python e) }
  | .test1 =>
      if s.currentSpeed < lessThanValueStage1 then
        some { s with
          ecu := { s.ecu with
            autobrakeDist := some autobrakeDistStage1, collisionDist := some collisionDistState1 }
          pc := .decide }
      else some { s with pc := .test2 }
  | .test2 =>
      if s.currentSpeed < lessThanValueStage2 then
        some { s with
          ecu := { s.ecu with
            autobrakeDist := some autobrakeDistStage2, collisionDist := some collisionDistState2 }
          pc := .decide }
      else some { s with pc := .test3 }
  | .test3 =>
      if s.currentSpeed < lessThanValueStage3 then
        some { s with
          ecu := { s.ecu with
            autobrakeDist := some autobrakeDistStage3, collisionDist := some collisionDistState3 }
          pc := .decide }
      else some { s with pc := .decide }
  | .decide =>
      match s.ecu.decide s.lessDistance with
      | .ok d => some { s with ecu := s.ecu.apply d, pc := .send }
      | .error e => some { s with pc := .ended (.python e) }
  | .send =>
      some { s with
        sent := s.sent ++ [⟨s.ecu.currentState, s.ecu.i⟩]
        ecu := { s.ecu with i := nextIndex s.ecu.i }
        pc := .acquire .sensor0 }
  | .ended _ => none

inductive ThreadAction where
  /-- A sample of a sensor thread yields a distance. -/
  | sample (k : SensorId) (distance : ℚ)
  /-- The next statement of a sensor thread. -/
  | sensor (k : SensorId)
  /-- `current_speed = float(line)` of the serial thread. -/
  | store (speed : ℚ)
  /-- The next statement of the loop. -/
  | loop
  deriving DecidableEq, Repr

def Threads.step (s : Threads) : ThreadAction → Option Threads
  | .sample k distance =>
      if s.sensor k = .sampling then
        some { s with sensor := Function.update s.sensor k (.acquire distance) }
      else none
  | .sensor k => s.sensorStep k
  | .store speed => some { s with currentSpeed := speed }
  | .loop => s.loopStep

/-- What an action can do, thread by thread. -/
theorem Threads.step_cases {s s' : Threads} {a : ThreadAction} (h : s.step a = some s') :
    (∃ k distance, a = .sample k distance ∧ s.sensor k = .sampling ∧
      s' = { s with sensor := Function.update s.sensor k (.acquire distance) }) ∨
    (∃ k, a = .sensor k ∧ s.sensorStep k = some s') ∨
    (∃ speed, a = .store speed ∧ s' = { s with currentSpeed := speed }) ∨
    (a = .loop ∧ s.loopStep = some s') := by
  cases a with
  | sample k distance =>
      simp only [step] at h
      split at h
      · exact Or.inl ⟨k, distance, rfl, ‹_›, (Option.some.inj h).symm⟩
      · cases h
  | sensor k => exact Or.inr (Or.inl ⟨k, rfl, h⟩)
  | store speed => exact Or.inr (Or.inr (Or.inl ⟨speed, rfl, (Option.some.inj h).symm⟩))
  | loop => exact Or.inr (Or.inr (Or.inr ⟨rfl, h⟩))

/-- What a statement of a sensor thread can do, one line each. -/
theorem Threads.sensorStep_cases {s s' : Threads} {k : SensorId} (h : s.sensorStep k = some s') :
    (∃ distance, s.sensor k = .acquire distance ∧ s.locked k = false ∧
      s' = { s with
        locked := Function.update s.locked k true
        sensor := Function.update s.sensor k (.append distance) }) ∨
    (∃ distance, s.sensor k = .append distance ∧
      s' = { s with
        distances := Function.update s.distances k (s.distances k ++ [distance])
        sensor := Function.update s.sensor k .release }) ∨
    (s.sensor k = .release ∧
      s' = { s with
        locked := Function.update s.locked k false
        sensor := Function.update s.sensor k .sampling }) := by
  cases pc : s.sensor k with
  | sampling => simp [sensorStep, pc] at h
  | acquire distance =>
      simp only [sensorStep, pc] at h
      split at h
      · cases h
      · rename_i free
        exact Or.inl ⟨distance, rfl, Bool.eq_false_iff.mpr free, (Option.some.inj h).symm⟩
  | append distance =>
      simp only [sensorStep, pc, Option.some.injEq] at h
      exact Or.inr (Or.inl ⟨distance, rfl, h.symm⟩)
  | release =>
      simp only [sensorStep, pc, Option.some.injEq] at h
      exact Or.inr (Or.inr ⟨rfl, h.symm⟩)

/-- What a statement of the loop can do, one constructor for each way it can go. -/
inductive LoopStep (s : Threads) : Threads → Prop where
  | acquire {k : SensorId} (pc : s.pc = .acquire k) (free : s.locked k = false) :
      LoopStep s { s with locked := Function.update s.locked k true, pc := .len k }
  | filled {k : SensorId} (pc : s.pc = .len k) (nonempty : 0 < (s.distances k).length) :
      LoopStep s { s with pc := .median k }
  | empty {k : SensorId} (pc : s.pc = .len k) (empty : s.distances k = []) :
      LoopStep s { s with pc := .missing k }
  | median {k : SensorId} (pc : s.pc = .median k) (nonempty : 0 < (s.distances k).length) :
      LoopStep s { s with
        median := Function.update s.median k (some (Ecu.median (s.distances k) nonempty))
        pc := .clear k }
  | noData {k : SensorId} (pc : s.pc = .median k) (empty : ¬ 0 < (s.distances k).length) :
      LoopStep s { s with pc := .ended (.statistics k) }
  | clear {k : SensorId} (pc : s.pc = .clear k) :
      LoopStep s { s with distances := Function.update s.distances k [], pc := .release k }
  | missing {k : SensorId} (pc : s.pc = .missing k) :
      LoopStep s { s with median := Function.update s.median k (some 123.44), pc := .release k }
  | release {k : SensorId} (pc : s.pc = .release k) :
      LoopStep s { s with locked := Function.update s.locked k false, pc := .afterRelease k }
  | fuse {median0 median1 : ℚ} (pc : s.pc = .fuse) (bound0 : s.median .sensor0 = some median0)
      (bound1 : s.median .sensor1 = some median1) :
      LoopStep s { s with lessDistance := min median0 median1, pc := .test1 }
  | unfused {k : SensorId} {e : PyError} (pc : s.pc = .fuse) (unbound : s.median k = none) :
      LoopStep s { s with pc := .ended (.python e) }
  | slow1 (pc : s.pc = .test1) (slow : s.currentSpeed < lessThanValueStage1) :
      LoopStep s { s with
        ecu := { s.ecu with
          autobrakeDist := some autobrakeDistStage1, collisionDist := some collisionDistState1 }
        pc := .decide }
  | fast1 (pc : s.pc = .test1) (fast : ¬ s.currentSpeed < lessThanValueStage1) :
      LoopStep s { s with pc := .test2 }
  | slow2 (pc : s.pc = .test2) (slow : s.currentSpeed < lessThanValueStage2) :
      LoopStep s { s with
        ecu := { s.ecu with
          autobrakeDist := some autobrakeDistStage2, collisionDist := some collisionDistState2 }
        pc := .decide }
  | fast2 (pc : s.pc = .test2) (fast : ¬ s.currentSpeed < lessThanValueStage2) :
      LoopStep s { s with pc := .test3 }
  | slow3 (pc : s.pc = .test3) (slow : s.currentSpeed < lessThanValueStage3) :
      LoopStep s { s with
        ecu := { s.ecu with
          autobrakeDist := some autobrakeDistStage3, collisionDist := some collisionDistState3 }
        pc := .decide }
  | fast3 (pc : s.pc = .test3) (fast : ¬ s.currentSpeed < lessThanValueStage3) :
      LoopStep s { s with pc := .decide }
  | decide {d : Decision} (pc : s.pc = .decide) (decided : s.ecu.decide s.lessDistance = .ok d) :
      LoopStep s { s with ecu := s.ecu.apply d, pc := .send }
  | raise {e : PyError} (pc : s.pc = .decide) (raised : s.ecu.decide s.lessDistance = .error e) :
      LoopStep s { s with pc := .ended (.python e) }
  | send (pc : s.pc = .send) :
      LoopStep s { s with
        sent := s.sent ++ [⟨s.ecu.currentState, s.ecu.i⟩]
        ecu := { s.ecu with i := nextIndex s.ecu.i }
        pc := .acquire .sensor0 }

theorem readLocal_eq_ok {name : String} {value : Option ℚ} {q : ℚ}
    (h : readLocal name value = .ok q) : value = some q := by
  cases value with
  | none => cases h
  | some r => exact congrArg some (Except.ok.inj h)

theorem readLocal_eq_error {name : String} {value : Option ℚ} {e : PyError}
    (h : readLocal name value = .error e) : value = none := by
  cases value with
  | none => rfl
  | some r => cases h

theorem Threads.loopStep_cases {s s' : Threads} (h : s.loopStep = some s') : LoopStep s s' := by
  unfold loopStep at h
  split at h
  · split at h
    · cases h
    · rename_i pc taken
      cases h
      exact .acquire pc (Bool.eq_false_iff.mpr taken)
  · rename_i k pc
    cases h
    split
    · exact .filled pc ‹_›
    · rename_i empty
      exact .empty pc (List.length_eq_zero_iff.mp (Nat.eq_zero_of_not_pos empty))
  · split at h
    · cases h
      exact .median ‹_› ‹_›
    · cases h
      exact .noData ‹_› ‹_›
  · cases h
    exact .clear ‹_›
  · cases h
    exact .missing ‹_›
  · cases h
    exact .release ‹_›
  · rename_i pc
    split at h
    · rename_i bound0 bound1
      cases h
      exact .fuse pc (readLocal_eq_ok bound0) (readLocal_eq_ok bound1)
    · rename_i unbound
      cases h
      exact .unfused pc (readLocal_eq_error unbound)
    · rename_i unbound
      cases h
      exact .unfused pc (readLocal_eq_error unbound)
  · split at h
    · cases h
      exact .slow1 ‹_› ‹_›
    · cases h
      exact .fast1 ‹_› ‹_›
  · split at h
    · cases h
      exact .slow2 ‹_› ‹_›
    · cases h
      exact .fast2 ‹_› ‹_›
  · split at h
    · cases h
      exact .slow3 ‹_› ‹_›
    · cases h
      exact .fast3 ‹_› ‹_›
  · split at h
    · cases h
      exact .decide ‹_› ‹_›
    · cases h
      exact .raise ‹_› ‹_›
  · cases h
    exact .send ‹_›
  · cases h

/-! ### Mutual exclusion -/

/-- Between `acquire` and `release`. -/
def SensorPc.inside : SensorPc → Bool
  | .sampling | .acquire _ => false
  | .append _ | .release => true

/-- The loop is between `acquire` and `release` of list `k`. -/
def LoopPc.inside : LoopPc → SensorId → Bool
  | .len k, k' | .median k, k' | .clear k, k' | .missing k, k' | .release k, k' => k = k'
  | .ended (.statistics k), k' => k = k'
  | _, _ => false

/-- Each lock is taken exactly while one of its two threads is inside. -/
def Locking (s : Threads) : Prop :=
  ∀ k, Exclusive (s.locked k) (s.sensor k).inside (s.pc.inside k)

theorem locking_init : Locking Threads.init := fun _ => exclusive_free

/-- A statement of a sensor thread changes its own lock and place. -/
theorem Locking.sensorStep {s s' : Threads} {k : SensorId} (h : Locking s)
    (stepped : s.sensorStep k = some s') : Locking s' := by
  intro k'
  rcases Threads.sensorStep_cases stepped with ⟨d, pc, free, rfl⟩ | ⟨d, pc, rfl⟩ | ⟨pc, rfl⟩
  · by_cases same : k' = k
    · subst same
      simpa [SensorPc.inside] using (h k').acquire free
    · simpa [same] using h k'
  · by_cases same : k' = k
    · subst same
      simpa [SensorPc.inside, pc] using h k'
    · simpa [same] using h k'
  · by_cases same : k' = k
    · subst same
      have inside : (s.sensor k').inside = true := by rw [pc]; rfl
      simpa [SensorPc.inside] using (h k').release inside
    · simpa [same] using h k'

/-- The loop is inside at most one of its critical sections. -/
theorem Locking.loopStep {s s' : Threads} (h : Locking s) (stepped : LoopStep s s') :
    Locking s' := by
  intro k'
  have before := h k'
  cases stepped
  case acquire k pc free =>
    by_cases same : k' = k
    · subst same
      simpa [LoopPc.inside] using (before.symm.acquire free).symm
    · simpa [LoopPc.inside, pc, same, eq_comm] using before
  case release k pc =>
    by_cases same : k' = k
    · subst same
      have inside : s.pc.inside k' = true := by simp [pc, LoopPc.inside]
      have after := (before.symm.release inside).symm
      cases k' <;> simpa [LoopPc.inside, LoopPc.afterRelease] using after
    · cases k <;> simpa [LoopPc.inside, LoopPc.afterRelease, pc, same, eq_comm] using before
  -- No other statement takes or frees a lock.
  all_goals simpa [LoopPc.inside, ‹s.pc = _›] using before

theorem Locking.step {s s' : Threads} {a : ThreadAction} (h : Locking s)
    (stepped : s.step a = some s') : Locking s' := by
  rcases Threads.step_cases stepped with
    ⟨k, d, rfl, pc, rfl⟩ | ⟨k, rfl, sensor⟩ | ⟨v, rfl, rfl⟩ | ⟨rfl, loop⟩
  · intro k'
    by_cases same : k' = k
    · subst same
      simpa [SensorPc.inside, pc] using h k'
    · simpa [same] using h k'
  · exact h.sensorStep sensor
  · exact h
  · exact h.loopStep (Threads.loopStep_cases loop)

end Adas.Ecu
