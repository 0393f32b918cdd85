import Mathlib.Data.List.Forall2
import Adas.Ecu.Release

/-!
How the alert follows the readings: dropouts, and closer obstacles.

A cycle in which both batches are empty is a reading of 123.44 cm, so a safe one:
it lowers the alert unless at least sixteen of the last twenty readings were
close (`dropoutKeepsAlert_iff`).

Closer readings do not always give the higher alert. A danger-zone reading whose
alarm is suppressed leaves the state alone where a warning would have raised it
(`closer_lower_alert`). What the filter does keep is the order of the two extreme
assignments (`autobrake_of_closer`, `normal_of_closer`). So the alert is never
lower by two (`within_one`). Every cycle in which one of the runs assigns a state
puts the alerts in order, but for two kinds of cycle, which put them out of order
(`Overtakes`, `ordered_step_iff`); and a cycle in which neither run assigns one
keeps the alerts. So the last cycle with an assignment decides
(`closer_keeps_alert`).
-/

namespace Adas.Ecu

open Lib

/-! ### Dropouts -/

/-- A cycle in which both batches are empty does not lower the alert. -/
def DropoutKeepsAlert (xs : List CycleInput) (x : CycleInput) : Prop :=
  x.sensor0Distances = [] → x.sensor1Distances = [] →
    ∀ s s', currentState? xs = some s → currentState? (xs ++ [x]) = some s' → s.id ≤ s'.id

theorem lessDistance_dropout {x : CycleInput} (empty0 : x.sensor0Distances = [])
    (empty1 : x.sensor1Distances = []) : x.lessDistance = 123.44 := by
  simp [CycleInput.lessDistance, sensorMedian, empty0, empty1]

theorem zone_dropout : zone 123.44 = .normal := by decide +kernel

/-- A safe reading keeps the state exactly over at least sixteen close ones. -/
theorem state_of_safe {ds : List ℚ} {d : ℚ} (safe : zone d = .normal) :
    (reference (ds ++ [d])).state =
      if 16 ≤ closeCount ds then (reference ds).state else .normal := by
  have total := count_normal ds
  simp only [eventsArraySize] at total
  rw [state_step, Reference.decide, assigned_of_quiet (by simp [safe]), safe]
  by_cases held : 16 ≤ closeCount ds
  · rw [if_pos held, if_neg (by simp only [Zone.code]; omega), Option.getD_none]
  · rw [if_neg held, if_pos (by simp only [Zone.code]; omega), Option.getD_some]
    rfl

/-- A dropout keeps the alert exactly when there was none, or at least sixteen of
the last twenty readings were close; otherwise it drops it to normal. -/
theorem dropoutKeepsAlert_iff (xs : List CycleInput) (x : CycleInput)
    (bound : LimitsBound (xs ++ [x])) (empty0 : x.sensor0Distances = [])
    (empty1 : x.sensor1Distances = []) :
    (DropoutKeepsAlert xs x ↔ currentState? xs = some .normal ∨
      16 ≤ ((distances xs).rtake eventsArraySize).countP (· < 25)) ∧
    currentState? (xs ++ [x]) =
      if 16 ≤ ((distances xs).rtake eventsArraySize).countP (· < 25) then currentState? xs
      else some .normal := by
  have before := currentState?_eq (bound.mono (List.prefix_append _ _))
  have after : currentState? (xs ++ [x]) =
      if 16 ≤ closeCount (distances xs) then currentState? xs else some .normal := by
    have safe : zone x.lessDistance = .normal := by
      rw [lessDistance_dropout empty0 empty1, zone_dropout]
    rw [currentState?_eq bound, before, distances_append, distances_singleton, state_of_safe safe]
    exact apply_ite some ..
  refine ⟨?_, after⟩
  change _ ↔ _ ∨ 16 ≤ closeCount (distances xs)
  simp only [DropoutKeepsAlert, empty0, empty1, forall_const, after]
  by_cases held : 16 ≤ closeCount (distances xs)
  · simp only [held, if_true, or_true, iff_true]
    rintro s s' hs hs'
    cases hs.symm.trans hs'
    exact le_rfl
  · simp only [held, if_false, or_false, Option.some.injEq]
    rw [before]
    generalize (reference (distances xs)).state = c
    cases c <;> simp [StateId.id]

/-- Eight dangerous readings, then a dropout. -/
theorem dropout_lowers_alert :
    ¬ DropoutKeepsAlert (List.replicate 8 (CycleInput.still 10)) ⟨[], [], 0⟩ := by
  intro keeps
  have lowered := keeps rfl rfl .autobrake .normal (by decide +kernel) (by decide +kernel)
  exact absurd lowered (by decide)

/-- Twenty dangerous readings, then a dropout: the brake is held. -/
theorem dropoutKeepsAlert_iff_twenty :
    DropoutKeepsAlert (List.replicate 20 (CycleInput.still 10)) ⟨[], [], 0⟩ :=
  (dropoutKeepsAlert_iff (List.replicate 20 (CycleInput.still 10)) ⟨[], [], 0⟩ (by decide) rfl
    rfl).1.mpr (Or.inr (by decide +kernel))

/-! ### Closer obstacles -/

/-- Two runs of the same speeds, the first one closer in every cycle. -/
def Closer (xs ys : List CycleInput) : Prop :=
  List.Forall₂ (fun x y => x.currentSpeed = y.currentSpeed ∧ x.lessDistance ≤ y.lessDistance) xs ys

/-- The closer run has the higher alert. -/
def CloserKeepsAlert (xs ys : List CycleInput) : Prop :=
  Closer xs ys → LimitsBound xs →
    ∀ s s', currentState? xs = some s → currentState? ys = some s' → s'.id ≤ s.id

/-- What iteration `k` of a run assigns to `current_state`, if anything. -/
def assignedIn (xs : List CycleInput) (k : ℕ) : Option StateId :=
  match xs[k]? with
  | none => none
  | some x =>
      match decisionAt (xs.take k) x with
      | .error _ => none
      | .ok d => d.assigned

/-- In iteration `k` one of two runs assigns a state. -/
def Assigns (xs ys : List CycleInput) (k : ℕ) : Prop :=
  assignedIn xs k ≠ none ∨ assignedIn ys k ≠ none

/-- The cycles that put a closer run below a farther one, by the states before the
cycle and what it assigns. Either the farther run raises its alert to the warning
while the closer one, in the normal state, assigns nothing; or the closer run
assigns the warning while the farther one, braking, assigns nothing. -/
def Overtaking (s s' : StateId) (a b : Option StateId) : Prop :=
  (s = .normal ∧ a = none ∧ b = some .precollision) ∨
    (s' = .autobrake ∧ a = some .precollision ∧ b = none)

/-- In iteration `k` the farther run overtakes the closer one. -/
def Overtakes (xs ys : List CycleInput) (k : ℕ) : Prop :=
  (currentState? (xs.take k) = some .normal ∧ assignedIn xs k = none ∧
      assignedIn ys k = some .precollision) ∨
    (currentState? (ys.take k) = some .autobrake ∧ assignedIn xs k = some .precollision ∧
      assignedIn ys k = none)

instance (xs ys : List CycleInput) (k : ℕ) : Decidable (Assigns xs ys k) := by
  unfold Assigns
  infer_instance

instance (xs ys : List CycleInput) (k : ℕ) : Decidable (Overtakes xs ys k) := by
  unfold Overtakes
  infer_instance

@[simp] theorem id_normal : StateId.normal.id = 0 := rfl

@[simp] theorem id_precollision : StateId.precollision.id = 1 := rfl

@[simp] theorem id_autobrake : StateId.autobrake.id = 2 := rfl

@[simp] theorem id_le_two (s : StateId) : s.id ≤ 2 := by cases s <;> decide

@[simp] theorem one_le_id {s : StateId} : 1 ≤ s.id ↔ s ≠ .normal := by cases s <;> decide

@[simp] theorem id_le_one {s : StateId} : s.id ≤ 1 ↔ s ≠ .autobrake := by cases s <;> decide

theorem countP_close_le {ds ds' : List ℚ} (closer : List.Forall₂ (· ≤ ·) ds ds') :
    ds'.countP close ≤ ds.countP close := by
  induction closer with
  | nil => exact le_rfl
  | @cons d d' ds ds' near _ ih =>
      have mono : close d' = true → close d = true := by
        simp only [close, decide_eq_true_iff]
        exact fun h => lt_of_le_of_lt near h
      rw [List.countP_cons, List.countP_cons]
      split
      · rename_i h
        rw [if_pos (mono h)]
        omega
      · omega

/-- The closer run has at least as many close readings in its window. -/
theorem closeCount_mono {ds ds' : List ℚ} (closer : List.Forall₂ (· ≤ ·) ds ds') :
    closeCount ds' ≤ closeCount ds := by
  unfold closeCount List.rtake
  rw [closer.length_eq]
  exact countP_close_le (List.forall₂_drop _ closer)

section Order

variable {ds ds' : List ℚ} {d d' : ℚ} (closer : List.Forall₂ (· ≤ ·) ds ds') (near : d ≤ d')
include closer near

/-- Where the farther run assigns the brake, so does the closer one. -/
theorem autobrake_of_closer
    (h : ((reference ds').decide d').assigned = some .autobrake) :
    ((reference ds).decide d).assigned = some .autobrake := by
  have mono := closeCount_mono closer
  simp only [Reference.decide, assigned_autobrake_iff, count_alarms, zone_autobrake_iff] at h ⊢
  exact ⟨lt_of_le_of_lt near h.1, by omega⟩

/-- Where the closer run assigns the normal state, so does the farther one. -/
theorem normal_of_closer (h : ((reference ds).decide d).assigned = some .normal) :
    ((reference ds').decide d').assigned = some .normal := by
  have mono := closeCount_mono closer
  have total := count_normal ds
  have total' := count_normal ds'
  simp only [Reference.decide, assigned_normal_iff, zone_normal_iff] at h ⊢
  exact ⟨h.1.trans near, by omega⟩

/-- A cycle in which one of the runs assigns a state puts the alerts in order,
unless the farther run overtakes; any other cycle keeps the alerts. -/
theorem ordered_step_iff :
    (reference (ds' ++ [d'])).state.id ≤ (reference (ds ++ [d])).state.id ↔
      if ((reference ds).decide d).assigned ≠ none ∨ ((reference ds').decide d').assigned ≠ none
      then ¬ Overtaking (reference ds).state (reference ds').state
        ((reference ds).decide d).assigned ((reference ds').decide d').assigned
      else (reference ds').state.id ≤ (reference ds).state.id := by
  have brakes := autobrake_of_closer closer near
  have clears := normal_of_closer closer near
  rw [state_step, state_step]
  generalize ((reference ds).decide d).assigned = a at brakes clears ⊢
  generalize ((reference ds').decide d').assigned = b at brakes clears ⊢
  generalize (reference ds).state = s
  generalize (reference ds').state = s'
  -- `brakes` and `clears` leave eight of the pairs of assignments.
  rcases a with _ | (_ | _ | _) <;> rcases b with _ | (_ | _ | _) <;>
    simp_all [Overtaking]

/-- The closer run is never in the normal state while the farther one brakes. -/
theorem within_one_step (before : (reference ds').state.id ≤ (reference ds).state.id + 1) :
    (reference (ds' ++ [d'])).state.id ≤ (reference (ds ++ [d])).state.id + 1 := by
  by_cases ordered : (reference (ds' ++ [d'])).state.id ≤ (reference (ds ++ [d])).state.id
  · exact ordered.trans (Nat.le_succ _)
  · rw [ordered_step_iff closer near] at ordered
    rw [state_step, state_step]
    split at ordered
    · rcases not_not.mp ordered with ⟨low, idle, warns⟩ | ⟨brakes, warns, idle⟩
      · rw [low, idle, warns]
        exact le_rfl
      · rw [brakes, warns, idle]
        exact le_rfl
    · rename_i quiet
      simp only [ne_eq, not_or, not_not] at quiet
      rw [quiet.1, quiet.2]
      exact before

end Order

theorem within_one {ds ds' : List ℚ} (closer : List.Forall₂ (· ≤ ·) ds ds') :
    (reference ds').state.id ≤ (reference ds).state.id + 1 := by
  have len := closer.length_eq
  have upTo : ∀ k ≤ ds.length,
      (reference (ds'.take k)).state.id ≤ (reference (ds.take k)).state.id + 1 := by
    intro k inside
    induction k with
    | zero => simp
    | succ k ih =>
        have hk : k < ds.length := inside
        have hk' : k < ds'.length := len ▸ hk
        rw [← List.take_append_getElem hk, ← List.take_append_getElem hk']
        exact within_one_step (List.forall₂_take k closer) (closer.get hk hk') (ih hk.le)
  have all := upTo ds.length le_rfl
  rwa [List.take_length, len, List.take_length] at all

theorem assignedIn_eq {xs : List CycleInput} (bound : LimitsBound xs) (k : ℕ)
    (hk : k < (distances xs).length) :
    assignedIn xs k =
      ((reference ((distances xs).take k)).decide (distances xs)[k]).assigned := by
  have hx : k < xs.length := by simpa using hk
  have decided : decisionAt (xs.take k) xs[k] = .ok _ := decisionAt_eq (bound.mono (by
    rw [List.take_append_getElem hx]
    exact List.take_prefix _ _))
  have value : (distances xs)[k] = xs[k].lessDistance := by simp [distances]
  rw [assignedIn, List.getElem?_eq_getElem hx]
  simp only [decided]
  rw [value, distances_take]

theorem assigns_of_overtakes {xs ys : List CycleInput} {k : ℕ} (overtakes : Overtakes xs ys k) :
    Assigns xs ys k := by
  rcases overtakes with ⟨-, -, warns⟩ | ⟨-, warns, -⟩
  · exact Or.inr (by simp [warns])
  · exact Or.inl (by simp [warns])

theorem overtakes_iff {xs ys : List CycleInput} (bound : LimitsBound xs) (bound' : LimitsBound ys)
    (k : ℕ) :
    Overtakes xs ys k ↔
      Overtaking (reference ((distances xs).take k)).state (reference ((distances ys).take k)).state
        (assignedIn xs k) (assignedIn ys k) := by
  have state := currentState?_eq (bound.mono (List.take_prefix k xs))
  have state' := currentState?_eq (bound'.mono (List.take_prefix k ys))
  simp only [Overtakes, Overtaking, state, state', distances_take, Option.some.injEq]

/-- The closer run's alert is lower by at most one. It is not lower exactly when no
cycle in which the farther run overtakes is the last one with an assignment. -/
theorem closer_keeps_alert (xs ys : List CycleInput) (closer : Closer xs ys)
    (bound : LimitsBound xs) :
    (CloserKeepsAlert xs ys ↔ ∀ k < xs.length, Overtakes xs ys k →
      ∃ j < xs.length, k < j ∧ Assigns xs ys j) ∧
    ∃ s s', currentState? xs = some s ∧ currentState? ys = some s' ∧ s'.id ≤ s.id + 1 := by
  have bound' : LimitsBound ys := by
    cases closer with
    | nil => exact bound
    | cons same _ => simpa [LimitsBound, same.1] using bound
  have readings : List.Forall₂ (· ≤ ·) (distances xs) (distances ys) := by
    unfold distances
    rw [List.forall₂_map_left_iff, List.forall₂_map_right_iff]
    exact closer.imp fun _ _ h => h.2
  have state := currentState?_eq bound
  have state' := currentState?_eq bound'
  refine ⟨?_, _, _, state, state', within_one readings⟩
  have final : CloserKeepsAlert xs ys ↔
      (reference (distances ys)).state.id ≤ (reference (distances xs)).state.id := by
    simp only [CloserKeepsAlert, closer, bound, state, state', forall_const, Option.some.injEq]
    exact ⟨fun keeps => keeps _ _ rfl rfl, fun keeps _ _ hs hs' => hs ▸ hs' ▸ keeps⟩
  have step : ∀ k < xs.length,
      (reference ((distances ys).take (k + 1))).state.id ≤
          (reference ((distances xs).take (k + 1))).state.id ↔
        if Assigns xs ys k then ¬ Overtakes xs ys k
        else (reference ((distances ys).take k)).state.id ≤
          (reference ((distances xs).take k)).state.id := by
    intro k below
    have hk : k < (distances xs).length := by simpa using below
    have hk' : k < (distances ys).length := readings.length_eq ▸ hk
    have near : (distances xs)[k] ≤ (distances ys)[k] := readings.get hk hk'
    have ordered := ordered_step_iff (List.forall₂_take k readings) near
    rw [List.take_append_getElem hk, List.take_append_getElem hk', ← assignedIn_eq bound k hk,
      ← assignedIn_eq bound' k hk', ← overtakes_iff bound bound'] at ordered
    exact ordered
  have decides := last_decides (P := fun k => (reference ((distances ys).take k)).state.id ≤
      (reference ((distances xs).take k)).state.id) (E := Assigns xs ys) (O := Overtakes xs ys)
    (by simp) (fun k => assigns_of_overtakes) xs.length
    (fun k below assigns => (step k below).trans (by rw [if_pos assigns]))
    fun k below quiet => (step k below).trans (by rw [if_neg quiet])
  have whole : ∀ zs : List CycleInput, xs.length = zs.length →
      (distances zs).take xs.length = distances zs := by
    intro zs len
    rw [List.take_of_length_le]
    simp [distances, len]
  rwa [whole xs rfl, whole ys closer.length_eq, ← final] at decides

theorem closer_still {d d' : ℚ} (near : d ≤ d') (n : ℕ) :
    Closer (List.replicate n (CycleInput.still d)) (List.replicate n (CycleInput.still d')) := by
  induction n with
  | zero => exact .nil
  | succ n ih => exact .cons ⟨rfl, by simpa using near⟩ ih

/-- Against eight warning readings the alert is lower after six and seven cycles; the
eighth danger-zone reading in a row assigns the brake and ends that. -/
theorem closer_keeps_alert_eight :
    CloserKeepsAlert (List.replicate 8 (CycleInput.still 10))
      (List.replicate 8 (CycleInput.still 20)) :=
  (closer_keeps_alert _ _ (closer_still (by decide : (10 : ℚ) ≤ 20) 8) (by decide)).1.mpr (by
    intro k below overtakes
    rcases Nat.lt_succ_iff_lt_or_eq.mp below with earlier | rfl
    · exact ⟨7, by decide, earlier, by decide +kernel⟩
    · exact absurd overtakes (by decide +kernel))

/-- Six danger-zone readings against six warning ones: the sixth warning is
assigned, the sixth danger is still a suppressed alarm. -/
theorem closer_lower_alert :
    ¬ CloserKeepsAlert (List.replicate 6 (CycleInput.still 10))
      (List.replicate 6 (CycleInput.still 20)) := by
  intro keeps
  have lower := keeps (closer_still (by decide) 6) (by decide) .normal .precollision
    (by decide +kernel) (by decide +kernel)
  exact absurd lower (by decide)

end Adas.Ecu
