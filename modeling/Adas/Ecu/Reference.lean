import Mathlib.Tactic.Linarith
import Adas.Lib.Ring
import Adas.Ecu.Cycle

/-!
What the alarm filter is for, stated without a ring.

The reference keeps every code it ever recorded and applies the three count
rules to the last twenty of them, padded in front with normal codes. It is the
specification that `Adas.Ecu.Filter` proves the loop to refine. The facts here
are about its window alone: how many of the last twenty readings were close
(`closeCount`), that the window holds exactly that many alarm codes
(`count_alarms`), and that the brake is only ever held over at least seven of
them (`seven_of_braking`).
-/

namespace Adas.Ecu

open Lib

/-! ### Zones and rules -/

/-- The three zones of the fused distance. -/
inductive Zone where
  | autobrake | collision | normal
  deriving DecidableEq, Repr

/-- Both limits are the same at every speed stage: 16 cm and 25 cm. -/
def zone (d : ℚ) : Zone :=
  if d < 16 then .autobrake else if d < 25 then .collision else .normal

/-- A reading closer than the collision limit. -/
def close (d : ℚ) : Bool := decide (d < 25)

/-- The count rules over a window of codes. -/
def rule (window : List StateId) : Zone → Decision
  | .autobrake =>
      if 6 < window.count .precollision + window.count .autobrake then ⟨some .autobrake, .autobrake⟩
      else ⟨none, .precollision⟩
  | .collision =>
      ⟨if 4 < window.count .precollision then some .precollision else none, .precollision⟩
  | .normal => ⟨if 4 < window.count .normal then some .normal else none, .normal⟩

/-- Every code recorded so far, and the state. -/
structure Reference where
  codes : List StateId
  state : StateId
  deriving DecidableEq, Repr

/-- The last twenty codes. -/
def Reference.window (r : Reference) : List StateId := recent eventsArraySize .normal r.codes

/-- What the rules decide for the next reading. -/
def Reference.decide (r : Reference) (d : ℚ) : Decision := rule r.window (zone d)

def Reference.step (r : Reference) (d : ℚ) : Reference where
  codes := r.codes ++ [(r.decide d).recorded]
  state := (r.decide d).assigned.getD r.state

/-- The reference after a history of fused distances, oldest first. -/
def reference (ds : List ℚ) : Reference := ds.foldl Reference.step ⟨[], .normal⟩

@[simp] theorem reference_nil : reference [] = ⟨[], .normal⟩ := rfl

@[simp] theorem reference_snoc (ds : List ℚ) (d : ℚ) :
    reference (ds ++ [d]) = (reference ds).step d := by
  simp [reference]

@[simp] theorem codes_length (ds : List ℚ) : (reference ds).codes.length = ds.length := by
  induction ds using List.reverseRecOn with
  | nil => rfl
  | append_singleton ds d ih => simp [Reference.step, ih]

@[simp] theorem window_length (r : Reference) : r.window.length = eventsArraySize := by
  simp [Reference.window]

/-- The window moves by one code a reading. -/
theorem window_step (r : Reference) (d : ℚ) :
    (r.step d).window = r.window.tail ++ [(r.decide d).recorded] :=
  recent_push 19 _ _ _

/-! ### What a reading does to the state -/

theorem zone_autobrake_iff {d : ℚ} : zone d = .autobrake ↔ d < 16 := by
  unfold zone
  split
  · simp_all
  · split <;> simp_all

theorem zone_collision_iff {d : ℚ} : zone d = .collision ↔ 16 ≤ d ∧ d < 25 := by
  unfold zone
  split
  · rename_i near
    simp [not_le.mpr near]
  · rename_i far
    split <;> simp_all

theorem zone_normal_iff {d : ℚ} : zone d = .normal ↔ 25 ≤ d := by
  unfold zone
  split
  · rename_i near
    have : ¬ (25 : ℚ) ≤ d := fun h => by linarith
    simp [this]
  · split <;> simp_all

theorem close_iff {d : ℚ} : close d = true ↔ zone d ≠ .normal := by
  rw [ne_eq, zone_normal_iff]
  simp [close]

/-- Only a danger-zone reading over seven alarms assigns the brake. -/
theorem assigned_autobrake_iff {w : List StateId} {z : Zone} :
    (rule w z).assigned = some .autobrake ↔
      z = .autobrake ∧ 6 < w.count .precollision + w.count .autobrake := by
  cases z <;> simp only [rule] <;> split <;> simp_all

/-- Assigning the brake and recording its code are one event. -/
theorem recorded_autobrake_iff {w : List StateId} {z : Zone} :
    (rule w z).recorded = .autobrake ↔ (rule w z).assigned = some .autobrake := by
  cases z <;> simp only [rule] <;> split <;> simp

theorem assigned_normal_iff {w : List StateId} {z : Zone} :
    (rule w z).assigned = some .normal ↔ z = .normal ∧ 4 < w.count .normal := by
  cases z <;> simp only [rule] <;> split <;> simp_all

/-- The code of a normal reading is the normal one, and of no other reading. -/
theorem recorded_normal_iff {w : List StateId} {z : Zone} :
    (rule w z).recorded = .normal ↔ z = .normal := by
  cases z with
  | autobrake =>
      simp only [rule]
      split <;> simp
  | collision => simp [rule]
  | normal => simp [rule]

/-! ### Counting the window -/

/-- An alarm code: the brake's or the warning's. -/
def alarm (c : StateId) : Bool := c != .normal

/-- How many of the last twenty readings were close. -/
def closeCount (ds : List ℚ) : ℕ := (ds.rtake eventsArraySize).countP close

theorem alarm_recorded (w : List StateId) (d : ℚ) :
    alarm (rule w (zone d)).recorded = close d := by
  rw [Bool.eq_iff_iff, close_iff]
  simp [alarm, recorded_normal_iff]

/-- The alarm codes recorded stand exactly where the close readings do. -/
theorem map_alarm_codes (ds : List ℚ) : (reference ds).codes.map alarm = ds.map close := by
  induction ds using List.reverseRecOn with
  | nil => rfl
  | append_singleton ds d ih => simp [Reference.step, Reference.decide, ih, alarm_recorded]

/-- Counting the window is counting the last twenty codes: the padding is normal. -/
theorem countP_window (p : StateId → Bool) (padding : p .normal = false) (ds : List ℚ) :
    (reference ds).window.countP p =
      (((reference ds).codes.map p).rtake eventsArraySize).countP id := by
  rw [Reference.window, countP_recent_rtake p padding, rtake_map, List.countP_map,
    Function.id_comp]

theorem countP_alarm_window (ds : List ℚ) :
    (reference ds).window.countP alarm = closeCount ds := by
  rw [countP_window alarm rfl, map_alarm_codes, closeCount, rtake_map, List.countP_map,
    Function.id_comp]

theorem countP_alarm (w : List StateId) :
    w.countP alarm = w.count .precollision + w.count .autobrake := by
  induction w with
  | nil => rfl
  | cons c w ih => cases c <;> simp [List.countP_cons, alarm, ih] <;> omega

theorem countP_alarm_add_normal (w : List StateId) :
    w.countP alarm + w.count .normal = w.length := by
  induction w with
  | nil => rfl
  | cons c w ih => cases c <;> simp [List.countP_cons, alarm, ← ih] <;> omega

/-- The alarm codes of the window are its close readings. -/
theorem count_alarms (ds : List ℚ) :
    (reference ds).window.count .precollision + (reference ds).window.count .autobrake =
      closeCount ds := by
  rw [← countP_alarm, countP_alarm_window]

/-- The normal codes of the window are the rest of it, padding included. -/
theorem count_normal (ds : List ℚ) :
    closeCount ds + (reference ds).window.count .normal = eventsArraySize := by
  have total := countP_alarm_add_normal (reference ds).window
  rwa [countP_alarm_window, window_length] at total

/-- A close reading keeps the number of close readings from falling. -/
theorem closeCount_le_of_close (ds : List ℚ) {d : ℚ} (near : close d = true) :
    closeCount ds ≤ closeCount (ds ++ [d]) := by
  simp only [← countP_alarm_window, reference_snoc]
  exact countP_recent_push_of_pos alarm ((alarm_recorded _ d).trans near)

/-- One reading changes the number of close readings by at most one. -/
theorem closeCount_le_succ (ds : List ℚ) (d : ℚ) :
    closeCount ds ≤ closeCount (ds ++ [d]) + 1 := by
  simp only [← countP_alarm_window, reference_snoc]
  exact countP_recent_push alarm _

/-! ### The brake is held over seven alarms -/

theorem state_step (ds : List ℚ) (d : ℚ) :
    (reference (ds ++ [d])).state =
      ((reference ds).decide d).assigned.getD (reference ds).state := by
  simp [Reference.step]

/-- While the state is the brake's, at least seven of the last twenty readings
were close: a normal reading that leaves it there sees at most four normal codes. -/
theorem seven_of_braking {ds : List ℚ} (braking : (reference ds).state = .autobrake) :
    7 ≤ closeCount ds := by
  induction ds using List.reverseRecOn with
  | nil => cases braking
  | append_singleton ds d ih =>
      rw [state_step] at braking
      by_cases near : close d = true
      · have grows := closeCount_le_of_close ds near
        cases h : ((reference ds).decide d).assigned with
        | none =>
            rw [h] at braking
            exact (ih braking).trans grows
        | some s =>
            rw [h, Option.getD_some] at braking
            subst braking
            have alarms := (assigned_autobrake_iff.mp h).2
            rw [count_alarms] at alarms
            omega
      · have far : zone d = .normal := by simpa [close_iff] using near
        have falls := closeCount_le_succ ds d
        have total := count_normal ds
        simp only [Reference.decide, far, rule] at braking
        split at braking
        · cases braking
        · simp only [eventsArraySize] at total
          omega

/-- A danger-zone reading in the brake state is recorded as such. -/
theorem decide_of_braking {ds : List ℚ} {d : ℚ} (braking : (reference ds).state = .autobrake)
    (danger : zone d = .autobrake) : (reference ds).decide d = ⟨some .autobrake, .autobrake⟩ := by
  have seven := seven_of_braking braking
  have alarms := count_alarms ds
  simp only [Reference.decide, danger, rule]
  rw [if_pos (by omega)]

end Adas.Ecu
