import Adas.Ecu.Convergence

/-!
When the false-alarm limits protect the brake.

`COUNT_NORMAL_FALSE_ALARM` and `COUNT_PRECOLLISION_FALSE_ALARM` are documented as
the false alarms allowed before the state changes. The counts they bound run
over the whole ring, so codes recorded before the brake was entered count
towards leaving it: the normal codes the ring starts with, and the danger-zone
readings that were recorded as warnings on the way in. One safe reading right
after the brake was entered releases it (`released_by_one_reading`).

`releaseBacked_iff` says exactly when a run is free of this: whenever fewer than
five readings of a lower zone followed the entry, the codes of that zone left in
the ring from before may not make up for the missing ones. The argument is the
window split of `window_of_held`: while the brake is held every reading records
its own zone's code, so the ring is stale codes followed by fresh ones.
-/

namespace Adas.Ecu

open Lib

/-! ### Backed releases -/

/-- `current_state` after a run. -/
def currentState? (xs : List CycleInput) : Option StateId :=
  (getMedianDistancesThread xs).toOption.map fun out => out.1.currentState

/-- `current_state` most recently became 2 in iteration `entry`, and `since` are
the iterations after that. -/
def BrakingSince (before : List CycleInput) (entry : CycleInput) (since : List CycleInput) : Prop :=
  currentState? before ≠ some .autobrake ∧
    ∀ q, q <+: since → currentState? (before ++ entry :: q) = some .autobrake

/-- The readings in the zone of a code. -/
def readingsIn (c : StateId) (xs : List CycleInput) : ℕ :=
  xs.countP fun x => (zone x.lessDistance).code == c

/-- Every iteration of the run that lowers the brake to a state has at least five
earlier readings in that state's zone since the brake was entered. -/
def ReleaseBacked (xs : List CycleInput) : Prop :=
  ∀ before entry since x lower, before ++ entry :: (since ++ [x]) <+: xs →
    BrakingSince before entry since →
    currentState? (before ++ entry :: (since ++ [x])) = some lower → lower ≠ .autobrake →
    5 ≤ readingsIn lower since

/-- The slots no iteration after the entry has written, by their code. -/
def staleCodes (e : EcuState) (c : StateId) (since : List CycleInput) : ℕ :=
  ((contents e.lastStates e.i).take (eventsArraySize - since.length)).count c

/-- In the brake state, a reading of a lower zone comes after five of its zone
since the entry, or finds at most four codes of its zone among the stale slots
and the readings since the entry together. -/
def NoStaleRelease (xs : List CycleInput) : Prop :=
  ∀ before entry since x e ms, before ++ entry :: (since ++ [x]) <+: xs →
    BrakingSince before entry since →
    getMedianDistancesThread (before ++ entry :: since) = .ok (e, ms) →
    zone x.lessDistance ≠ .autobrake →
    5 ≤ readingsIn (zone x.lessDistance).code since ∨
      staleCodes e (zone x.lessDistance).code since +
        readingsIn (zone x.lessDistance).code since ≤ 4

/-! ### The window while the brake is held -/

theorem currentState?_eq {xs : List CycleInput} (bound : LimitsBound xs) :
    currentState? xs = some (reference (distances xs)).state := by
  obtain ⟨e, ms, run, after⟩ := thread_refines bound
  simp [currentState?, run, Except.toOption, after.refines.state]

theorem limitsBound_of_currentState? {xs : List CycleInput} {c : StateId}
    (h : currentState? xs = some c) : LimitsBound xs := by
  unfold currentState? at h
  cases run : getMedianDistancesThread xs with
  | error err => simp [run, Except.toOption] at h
  | ok out => exact limitsBound_of_run run

/-- While the brake is held every reading records its own zone's code, the
danger zone's because at least seven alarms are in the window. -/
theorem codes_of_held {ds es : List ℚ}
    (held : ∀ q, q <+: es → (reference (ds ++ q)).state = .autobrake) :
    (reference (ds ++ es)).codes = (reference ds).codes ++ es.map (fun d => (zone d).code) := by
  induction es using List.reverseRecOn with
  | nil => simp
  | append_singleton es d ih =>
      have before : (reference (ds ++ es)).state = .autobrake := held es (List.prefix_append _ _)
      have recorded : ((reference (ds ++ es)).decide d).recorded = (zone d).code := by
        by_cases danger : zone d = .autobrake
        · rw [decide_of_braking before danger, danger]
          rfl
        · exact recorded_of_quiet danger
      rw [← List.append_assoc, reference_snoc]
      simp only [Reference.step, recorded]
      rw [ih fun q hq => held q (hq.trans (List.prefix_append _ _))]
      simp

/-- The window is what is left of the one at the entry, then the fresh codes. -/
theorem window_of_held {ds es : List ℚ}
    (held : ∀ q, q <+: es → (reference (ds ++ q)).state = .autobrake) :
    (reference (ds ++ es)).window =
      recent (eventsArraySize - es.length) .normal (reference ds).codes ++
        (es.map fun d => (zone d).code).drop (es.length - eventsArraySize) := by
  rw [Reference.window, codes_of_held held, recent_append, List.length_map]

/-- Twenty readings after the entry no stale slot is left; before that no fresh
code has been pushed out. Either way the window holds more than four codes only
if the stale and the fresh ones do, and while the fresh ones alone do not, only then. -/
theorem count_window_of_held {ds es : List ℚ} {c : StateId}
    (held : ∀ q, q <+: es → (reference (ds ++ q)).state = .autobrake)
    (few : es.countP (fun d => (zone d).code == c) ≤ 4) :
    4 < (reference (ds ++ es)).window.count c ↔
      4 < ((reference (ds ++ es)).window.take (eventsArraySize - es.length)).count c +
        es.countP (fun d => (zone d).code == c) := by
  have fresh : (es.map fun d => (zone d).code).count c =
      es.countP (fun d => (zone d).code == c) := by
    simp [List.count_eq_countP, List.countP_map, Function.comp_def]
  have stale : (reference (ds ++ es)).window.take (eventsArraySize - es.length) =
      recent (eventsArraySize - es.length) .normal (reference ds).codes := by
    rw [window_of_held held]
    exact List.take_left' (recent_length ..)
  rw [stale, window_of_held held, List.count_append]
  by_cases fits : es.length ≤ eventsArraySize
  · rw [Nat.sub_eq_zero_of_le fits, List.drop_zero, fresh]
  · have none : eventsArraySize - es.length = 0 := by omega
    have kept : ((es.map fun d => (zone d).code).drop (es.length - eventsArraySize)).count c ≤
        (es.map fun d => (zone d).code).count c := (List.drop_sublist _ _).count_le _
    rw [none, recent_zero]
    simp only [List.count_nil]
    omega

/-! ### The exact condition -/

theorem readingsIn_eq (c : StateId) (xs : List CycleInput) :
    readingsIn c xs = (distances xs).countP fun d => (zone d).code == c := by
  simp [readingsIn, distances, List.countP_map, Function.comp_def]

/-- `BrakingSince` in terms of the reference. -/
theorem BrakingSince.held {before since : List CycleInput} {entry : CycleInput}
    (h : BrakingSince before entry since) :
    ∀ q, q <+: distances since →
      (reference (distances (before ++ [entry]) ++ q)).state = .autobrake := by
  intro q hq
  obtain ⟨n, rfl⟩ : ∃ n, q = (distances since).take n := ⟨q.length, List.prefix_iff_eq_take.mp hq⟩
  have state := h.2 (since.take n) (List.take_prefix _ _)
  rw [currentState?_eq (limitsBound_of_currentState? state)] at state
  have split : distances (before ++ entry :: since.take n) =
      distances (before ++ [entry]) ++ (distances since).take n := by
    simp [distances_take]
  rw [← split]
  exact Option.some.inj state

/-- One iteration that finds the brake held lowers it exactly when its zone is a
lower one with more than four codes in the window. -/
theorem lowers_iff {ds : List ℚ} {d : ℚ} {c : StateId}
    (braking : (reference ds).state = .autobrake) (lower : c ≠ .autobrake) :
    (reference (ds ++ [d])).state = c ↔
      zone d ≠ .autobrake ∧ (zone d).code = c ∧ 4 < (reference ds).window.count (zone d).code := by
  rw [state_step]
  by_cases danger : zone d = .autobrake
  · rw [decide_of_braking braking danger]
    simp [danger, lower.symm]
  · rw [Reference.decide, assigned_of_quiet danger, braking]
    split
    · rename_i more
      simp [danger, more]
    · rename_i few
      constructor
      · intro kept
        exact absurd kept.symm lower
      · rintro ⟨-, -, more⟩
        exact absurd more few

/-- With too few fresh readings of a zone, an iteration of the loop lowers the
brake to it exactly when stale codes make up for the missing ones. -/
theorem released_iff_of_few {before since : List CycleInput} {entry x : CycleInput}
    {e : EcuState} {ms : List Message} {c : StateId} (braking : BrakingSince before entry since)
    (run : getMedianDistancesThread (before ++ entry :: since) = .ok (e, ms))
    (lower : c ≠ .autobrake) (few : readingsIn c since ≤ 4) :
    currentState? (before ++ entry :: (since ++ [x])) = some c ↔
      zone x.lessDistance ≠ .autobrake ∧ (zone x.lessDistance).code = c ∧
        4 < staleCodes e (zone x.lessDistance).code since +
          readingsIn (zone x.lessDistance).code since := by
  have held := braking.held
  have bound : LimitsBound (before ++ entry :: (since ++ [x])) := by
    have first := limitsBound_of_run run
    cases before <;> simpa [LimitsBound] using first
  have shape : distances (before ++ entry :: since) =
      distances (before ++ [entry]) ++ distances since := by simp
  have snoc : distances (before ++ entry :: (since ++ [x])) =
      distances (before ++ entry :: since) ++ [x.lessDistance] := by simp
  have state : (reference (distances (before ++ entry :: since))).state = .autobrake := by
    rw [shape]
    exact held _ List.prefix_rfl
  have ring := (after_of_run run).refines.ring
  rw [currentState?_eq bound, Option.some.injEq, snoc, lowers_iff state lower]
  refine and_congr_right fun _ => and_congr_right fun same => ?_
  subst same
  rw [readingsIn_eq] at few
  rw [shape, count_window_of_held held few, ← shape, ← ring, staleCodes, readingsIn_eq,
    distances_length]

/-- A run never releases the brake on fewer than five readings exactly when no
stale codes make up for the missing ones. -/
theorem releaseBacked_iff (xs : List CycleInput) : ReleaseBacked xs ↔ NoStaleRelease xs := by
  constructor
  · intro backed before entry since x e ms inside braking run quiet
    by_contra contra
    have lower : (zone x.lessDistance).code ≠ .autobrake :=
      fun h => quiet (Zone.code_eq_autobrake_iff.mp h)
    have few : readingsIn (zone x.lessDistance).code since ≤ 4 := by omega
    have released := (released_iff_of_few braking run lower few).mpr ⟨quiet, rfl, by omega⟩
    have five := backed before entry since x _ inside braking released lower
    omega
  · intro clean before entry since x c inside braking released lower
    by_contra contra
    have few : readingsIn c since ≤ 4 := by omega
    have bound : LimitsBound (before ++ entry :: since) :=
      (limitsBound_of_currentState? released).mono ⟨[x], by simp⟩
    obtain ⟨e, ms, run, -⟩ := thread_refines bound
    obtain ⟨quiet, rfl, more⟩ := (released_iff_of_few braking run lower few).mp released
    have stale := clean before entry since x e ms inside braking run quiet
    omega

/-- Eight dangerous readings, then one safe reading: the brake is entered in the
eighth iteration and released in the ninth, with no safe reading in between. -/
theorem released_by_one_reading :
    ¬ ReleaseBacked (List.replicate 8 (CycleInput.still 10) ++ [CycleInput.still 100]) := by
  intro backed
  have held : BrakingSince (List.replicate 7 (CycleInput.still 10)) (CycleInput.still 10) [] := by
    refine ⟨by decide +kernel, fun q hq => ?_⟩
    rw [List.prefix_nil.mp hq]
    decide +kernel
  have five := backed (List.replicate 7 (CycleInput.still 10)) (CycleInput.still 10) []
    (CycleInput.still 100) .normal List.prefix_rfl held (by decide +kernel) (by decide)
  exact absurd five (by decide)

end Adas.Ecu
