import Adas.Ecu.Release

/-!
When earlier close readings count towards the warning.

The brake's rule counts both alarm codes, the warning's rule only its own. A
danger-zone reading is recorded as a warning as long as at most six of the
twenty readings before it were close, and as the brake's from then on
(`ownWarning`), so the codes the warning's rule counts can be read off the
distances alone (`count_precollision`). After a long danger the ring is full of
brake codes, and once safe readings have brought the state back to 0 a reading
in the warning zone leaves it there (`ignored_after_brake`). `warned_iff` says
exactly which runs are free of this.
-/

namespace Adas.Ecu

open Lib

/-! ### Warnings by their readings -/

/-- A reading that is recorded as a warning: one of the warning zone, or one of
the danger zone over at most six close readings. -/
def ownWarning (before : List ℚ) (d : ℚ) : Bool :=
  zone d == .collision || (zone d == .autobrake && closeCount before ≤ 6)

/-- How many of the last twenty readings were recorded as warnings. -/
def warningCount (ds : List ℚ) : ℕ :=
  ((ds.mapIdx fun k d => ownWarning (ds.take k) d).rtake eventsArraySize).count true

theorem recorded_precollision_iff {w : List StateId} {z : Zone} :
    (rule w z).recorded = .precollision ↔
      z = .collision ∨ z = .autobrake ∧ w.count .precollision + w.count .autobrake ≤ 6 := by
  cases z with
  | autobrake =>
      simp only [rule]
      split
      · rename_i many
        simp [not_le.mpr many]
      · rename_i few
        simp [not_lt.mp few]
  | collision => simp [rule]
  | normal => simp [rule]

theorem recorded_beq (ds : List ℚ) (d : ℚ) :
    (((reference ds).decide d).recorded == .precollision) = ownWarning ds d := by
  rw [Bool.eq_iff_iff, beq_iff_eq, Reference.decide, recorded_precollision_iff, count_alarms]
  simp [ownWarning]

/-- The warning codes recorded stand exactly where these readings do. -/
theorem map_precollision_codes (ds : List ℚ) :
    (reference ds).codes.map (· == .precollision) =
      ds.mapIdx fun k d => ownWarning (ds.take k) d := by
  induction ds using List.reverseRecOn with
  | nil => rfl
  | append_singleton ds d ih =>
      have earlier : (ds.mapIdx fun k d' => ownWarning (ds.take k) d') =
          ds.mapIdx fun k d' => ownWarning ((ds ++ [d]).take k) d' := by
        refine List.mapIdx_eq_mapIdx_iff.mpr fun k lt => ?_
        rw [List.take_append_of_le_length lt.le]
      rw [List.mapIdx_concat, ← earlier, ← ih, List.take_left]
      simp [Reference.step, recorded_beq]

/-- What the warning's rule counts, by the readings. -/
theorem count_precollision (ds : List ℚ) :
    (reference ds).window.count .precollision = warningCount ds := by
  rw [List.count_eq_countP, countP_window _ rfl, map_precollision_codes, warningCount,
    List.count_eq_countP]
  congr 1
  funext b
  cases b <;> rfl

/-- A reading of the warning zone assigns the warning over more than four of
them, and otherwise leaves the state alone. -/
theorem state_of_warning {ds : List ℚ} {d : ℚ} (warning : zone d = .collision) :
    (reference (ds ++ [d])).state =
      if 4 < warningCount ds then .precollision else (reference ds).state := by
  rw [state_step, Reference.decide, warning, rule, count_precollision]
  split <;> rfl

/-! ### Heeded warnings -/

/-- Every cycle of the run with a reading in the warning zone, after more than
four close readings among the twenty cycles before it, ends in state 1 or 2. -/
def WarningsHeeded (xs : List CycleInput) : Prop :=
  ∀ before x, before ++ [x] <+: xs → 16 ≤ x.lessDistance → x.lessDistance < 25 →
    4 < ((distances before).rtake eventsArraySize).countP (· < 25) →
    currentState? (before ++ [x]) = some .precollision ∨
      currentState? (before ++ [x]) = some .autobrake

/-- The state is not 0 before such a cycle, or more than four of the twenty
readings before it were recorded as warnings. -/
def WarningsCounted (xs : List CycleInput) : Prop :=
  ∀ before x, before ++ [x] <+: xs → 16 ≤ x.lessDistance → x.lessDistance < 25 →
    4 < ((distances before).rtake eventsArraySize).countP (· < 25) →
    currentState? before ≠ some .normal ∨ 4 < warningCount (distances before)

/-- One cycle with a reading in the warning zone. -/
theorem alarmed_iff {before : List CycleInput} {x : CycleInput}
    (bound : LimitsBound (before ++ [x])) (warning : zone x.lessDistance = .collision) :
    (currentState? (before ++ [x]) = some .precollision ∨
        currentState? (before ++ [x]) = some .autobrake) ↔
      currentState? before ≠ some .normal ∨ 4 < warningCount (distances before) := by
  rw [currentState?_eq bound, currentState?_eq (bound.mono (List.prefix_append _ _)),
    distances_append, distances_singleton, state_of_warning warning]
  split
  · rename_i many
    simp [many]
  · rename_i few
    cases (reference (distances before)).state <;> simp [few]

/-- A run heeds every warning exactly when none of them comes in state 0 over a
window in which at most four readings were recorded as warnings. -/
theorem warned_iff (xs : List CycleInput) (bound : LimitsBound xs) :
    WarningsHeeded xs ↔ WarningsCounted xs := by
  constructor
  · intro heeded before x inside far near close
    have warning : zone x.lessDistance = .collision := zone_collision_iff.mpr ⟨far, near⟩
    exact (alarmed_iff (bound.mono inside) warning).mp (heeded before x inside far near close)
  · intro counted before x inside far near close
    have warning : zone x.lessDistance = .collision := zone_collision_iff.mpr ⟨far, near⟩
    exact (alarmed_iff (bound.mono inside) warning).mpr (counted before x inside far near close)

/-- Twenty dangerous readings, six safe ones, one in the warning zone. -/
def afterBrake : List CycleInput :=
  List.replicate 20 (.still 10) ++ List.replicate 6 (.still 100) ++ [.still 20]

/-- Fourteen of the twenty readings before the last one were close, but the state
is back at 0 and stays there. -/
theorem ignored_after_brake : ¬ WarningsHeeded afterBrake := by
  intro heeded
  have warned := heeded (List.replicate 20 (.still 10) ++ List.replicate 6 (.still 100))
    (.still 20) List.prefix_rfl (by decide +kernel) (by decide +kernel) (by decide +kernel)
  revert warned
  decide +kernel

/-- Five readings in the warning zone count, and the sixth one is heeded. -/
theorem warned_iff_still :
    LimitsBound (List.replicate 6 (.still 20)) ∧
      WarningsHeeded (List.replicate 6 (.still 20)) := by
  refine ⟨by decide, (warned_iff _ (by decide)).mpr fun before x inside _ _ close => ?_⟩
  obtain ⟨short, -⟩ := List.prefix_replicate_iff.mp inside
  obtain ⟨-, same⟩ :=
    List.prefix_replicate_iff.mp ((List.prefix_append before [x]).trans inside)
  have many := close.trans_le List.countP_le_length
  simp only [length_rtake, distances_length, List.length_append,
    List.length_singleton] at many short
  have five : before.length = 5 := by omega
  rw [same, five]
  exact Or.inr (by decide +kernel)

end Adas.Ecu
