import Mathlib.Order.Monotone.Defs
import Adas.Ecu.Sensor

/-!
Every sample ends (`main.py`, `sensor_thread`).

Here the echo line and the clock are given in full, and an iteration takes what
it asks for from them in order; what it takes is a trace of `Sensor`
(`sampleWithin_observed`). Nothing is assumed of either; that the clock does not go
back is a hypothesis where it is needed. A polling loop reads the clock once a poll, so it is
left at the latest by the poll whose reading is past the deadline
(`waitWithin_ends`). The readings it stores come after that test and may lie
anywhere, but each one is between its neighbours, and the checks after the loops
bound the last one (`sample_ends`).
-/

namespace Adas.Ecu

/-! ### An iteration among its surroundings -/

/-- What poll `k` of `GPIO_ECHO` finds, and what call `k` of `time.time()` returns. -/
structure Surroundings where
  echo : ℕ → Bool
  clock : ℕ → ℚ

/-- How many polls, and how many calls of `time.time()`, have been made. -/
structure Made where
  polls : ℕ
  calls : ℕ
  deriving DecidableEq, Repr

/-- `waitWhile`, at most `fuel` polls of it. -/
def waitWithin (w : Surroundings) (level : Bool) (sampleStartTime : ℚ) :
    ℕ → Made → ℚ → Option (ℚ × Made)
  | 0, _, _ => none
  | fuel + 1, made, stored =>
      if w.echo made.polls = level then
        if w.clock made.calls - sampleStartTime < leaveSampleInterval then
          waitWithin w level sampleStartTime fuel ⟨made.polls + 1, made.calls + 2⟩
            (w.clock (made.calls + 1))
        else some (stored, ⟨made.polls + 1, made.calls + 1⟩)
      else some (stored, ⟨made.polls + 1, made.calls⟩)

/-- One iteration, at most `fuel` polls a loop: the distance it appends, if it
appends one. -/
def sampleWithin (w : Surroundings) (fuel : ℕ) (made : Made) : Option (Option ℚ × Made) :=
  let sampleStartTime := w.clock made.calls
  match waitWithin w false sampleStartTime fuel ⟨made.polls, made.calls + 2⟩
      (w.clock (made.calls + 1)) with
  | none => none
  | some (startTime, made) =>
      if w.clock made.calls - sampleStartTime > leaveSampleInterval then
        some (none, ⟨made.polls, made.calls + 1⟩)
      else
        match waitWithin w true sampleStartTime fuel ⟨made.polls, made.calls + 2⟩
            (w.clock (made.calls + 1)) with
        | none => none
        | some (stopTime, made) =>
            if w.clock made.calls - sampleStartTime > leaveSampleInterval then
              some (none, ⟨made.polls, made.calls + 1⟩)
            else some (some ((stopTime - startTime) * 34300 / 2), ⟨made.polls, made.calls + 1⟩)

/-! ### The loops -/

section Wait

variable {w : Surroundings} {level : Bool} {sampleStartTime : ℚ}

/-- How a loop ends: left by its first poll, left by the test after it, or after
another round. -/
theorem waitWithin_eq_some {fuel : ℕ} {made made' : Made} {stored last : ℚ} :
    waitWithin w level sampleStartTime (fuel + 1) made stored = some (last, made') ↔
      (w.echo made.polls ≠ level ∧ last = stored ∧ made' = ⟨made.polls + 1, made.calls⟩) ∨
      (w.echo made.polls = level ∧
        ¬ w.clock made.calls - sampleStartTime < leaveSampleInterval ∧
        last = stored ∧ made' = ⟨made.polls + 1, made.calls + 1⟩) ∨
      (w.echo made.polls = level ∧ w.clock made.calls - sampleStartTime < leaveSampleInterval ∧
        waitWithin w level sampleStartTime fuel ⟨made.polls + 1, made.calls + 2⟩
          (w.clock (made.calls + 1)) = some (last, made')) := by
  rw [waitWithin]
  by_cases found : w.echo made.polls = level
  · by_cases early : w.clock made.calls - sampleStartTime < leaveSampleInterval
    · simp [found, early]
    · simp [found, early, eq_comm]
  · simp [found, eq_comm]

/-- A loop that ended within some polls is not changed by allowing more. -/
theorem waitWithin_mono {fuel fuel' : ℕ} (le : fuel ≤ fuel') {made made' : Made} {stored last : ℚ}
    (h : waitWithin w level sampleStartTime fuel made stored = some (last, made')) :
    waitWithin w level sampleStartTime fuel' made stored = some (last, made') := by
  induction fuel generalizing fuel' made stored with
  | zero => cases h
  | succ fuel ih =>
      obtain ⟨fuel', rfl⟩ := Nat.exists_eq_add_of_le' (Nat.one_le_of_lt le)
      rcases waitWithin_eq_some.mp h with left | deadline | ⟨found, early, rest⟩
      · exact waitWithin_eq_some.mpr (Or.inl left)
      · exact waitWithin_eq_some.mpr (Or.inr (Or.inl deadline))
      · have more := ih (Nat.le_of_succ_le_succ le) rest
        exact waitWithin_eq_some.mpr (Or.inr (Or.inr ⟨found, early, more⟩))

/-- The loop is left by the first poll whose clock reading is past the deadline,
if not before. -/
theorem waitWithin_ends (monotone : Monotone w.clock) {n : ℕ}
    (late : sampleStartTime + leaveSampleInterval ≤ w.clock n) {fuel : ℕ} (positive : 0 < fuel)
    (made : Made) (enough : n < made.calls + fuel) (stored : ℚ) :
    ∃ last made', waitWithin w level sampleStartTime fuel made stored = some (last, made') := by
  induction fuel generalizing made stored with
  | zero => cases positive
  | succ fuel ih =>
      rw [waitWithin]
      split
      · split
        · rename_i early
          have before : made.calls < n := by
            by_contra passed
            have reached := monotone (not_lt.mp passed)
            linarith
          have more : n < made.calls + 2 + fuel := by omega
          exact ih (by omega) _ more _
        · exact ⟨_, _, rfl⟩
      · exact ⟨_, _, rfl⟩

/-- The value stored only grows, and never beyond the next reading. -/
theorem waitWithin_bounds (monotone : Monotone w.clock) {fuel : ℕ} {made made' : Made}
    {stored last : ℚ} (h : waitWithin w level sampleStartTime fuel made stored = some (last, made'))
    (read : stored ≤ w.clock made.calls) : stored ≤ last ∧ last ≤ w.clock made'.calls := by
  induction fuel generalizing made stored with
  | zero => cases h
  | succ fuel ih =>
      rcases waitWithin_eq_some.mp h with ⟨-, rfl, rfl⟩ | ⟨-, -, rfl, rfl⟩ | ⟨-, -, rest⟩
      · exact ⟨le_rfl, read⟩
      · exact ⟨le_rfl, read.trans (monotone (Nat.le_succ _))⟩
      · have next : w.clock made.calls ≤ w.clock (made.calls + 1) := monotone (Nat.le_succ _)
        obtain ⟨grows, below⟩ := ih rest (monotone (Nat.le_succ _))
        exact ⟨read.trans (next.trans grows), below⟩

end Wait

/-! ### The iteration -/

section Iteration

variable {w : Surroundings}

/-- The ways an iteration can end: given up after the first loop, given up after
the second one, or with a distance. -/
inductive Ends (w : Surroundings) (fuel : ℕ) (made : Made) : Option ℚ → Made → Prop where
  | first {startTime : ℚ} {m : Made}
      (start : waitWithin w false (w.clock made.calls) fuel ⟨made.polls, made.calls + 2⟩
        (w.clock (made.calls + 1)) = some (startTime, m))
      (late : w.clock m.calls - w.clock made.calls > leaveSampleInterval) :
      Ends w fuel made none ⟨m.polls, m.calls + 1⟩
  | second {startTime stopTime : ℚ} {m m' : Made}
      (start : waitWithin w false (w.clock made.calls) fuel ⟨made.polls, made.calls + 2⟩
        (w.clock (made.calls + 1)) = some (startTime, m))
      (inTime : ¬ w.clock m.calls - w.clock made.calls > leaveSampleInterval)
      (stop : waitWithin w true (w.clock made.calls) fuel ⟨m.polls, m.calls + 2⟩
        (w.clock (m.calls + 1)) = some (stopTime, m'))
      (late : w.clock m'.calls - w.clock made.calls > leaveSampleInterval) :
      Ends w fuel made none ⟨m'.polls, m'.calls + 1⟩
  | appends {startTime stopTime : ℚ} {m m' : Made}
      (start : waitWithin w false (w.clock made.calls) fuel ⟨made.polls, made.calls + 2⟩
        (w.clock (made.calls + 1)) = some (startTime, m))
      (inTime : ¬ w.clock m.calls - w.clock made.calls > leaveSampleInterval)
      (stop : waitWithin w true (w.clock made.calls) fuel ⟨m.polls, m.calls + 2⟩
        (w.clock (m.calls + 1)) = some (stopTime, m'))
      (inTime' : ¬ w.clock m'.calls - w.clock made.calls > leaveSampleInterval) :
      Ends w fuel made (some ((stopTime - startTime) * 34300 / 2)) ⟨m'.polls, m'.calls + 1⟩

theorem ends_iff {fuel : ℕ} {made made' : Made} {appended : Option ℚ} :
    sampleWithin w fuel made = some (appended, made') ↔ Ends w fuel made appended made' := by
  constructor
  · intro h
    simp only [sampleWithin] at h
    split at h
    · cases h
    · rename_i startTime m start
      split at h
      · rename_i late
        cases h
        exact .first start late
      · rename_i inTime
        split at h
        · cases h
        · rename_i stopTime m' stop
          split at h
          · rename_i late
            cases h
            exact .second start inTime stop late
          · rename_i inTime'
            cases h
            exact .appends start inTime stop inTime'
  · intro h
    unfold sampleWithin
    cases h with
    | first start late => simp only [start, if_pos late]
    | second start inTime stop late => simp only [start, if_neg inTime, stop, if_pos late]
    | appends start inTime stop inTime' =>
        simp only [start, if_neg inTime, stop, if_neg inTime']

/-- An iteration that ended is not changed by allowing more polls. -/
theorem sampleWithin_mono {fuel fuel' : ℕ} (le : fuel ≤ fuel') {made made' : Made}
    {appended : Option ℚ} (h : sampleWithin w fuel made = some (appended, made')) :
    sampleWithin w fuel' made = some (appended, made') := by
  refine ends_iff.mpr ?_
  cases ends_iff.mp h with
  | first start late => exact .first (waitWithin_mono le start) late
  | second start inTime stop late =>
      exact .second (waitWithin_mono le start) inTime (waitWithin_mono le stop) late
  | appends start inTime stop inTime' =>
      exact .appends (waitWithin_mono le start) inTime (waitWithin_mono le stop) inTime'

/-- Both loops end, so the iteration does. -/
theorem sampleWithin_ends (monotone : Monotone w.clock) {n : ℕ} {made : Made}
    (late : w.clock made.calls + leaveSampleInterval ≤ w.clock n) {fuel : ℕ} (enough : n < fuel) :
    ∃ appended made', sampleWithin w fuel made = some (appended, made') := by
  have positive : 0 < fuel := Nat.zero_lt_of_lt enough
  obtain ⟨startTime, m, start⟩ := waitWithin_ends monotone late positive
    ⟨made.polls, made.calls + 2⟩ (Nat.lt_add_left _ enough) (w.clock (made.calls + 1))
  obtain ⟨stopTime, m', stop⟩ := waitWithin_ends monotone late positive
    ⟨m.polls, m.calls + 2⟩ (Nat.lt_add_left _ enough) (w.clock (m.calls + 1))
  by_cases gaveUp : w.clock m.calls - w.clock made.calls > leaveSampleInterval
  · exact ⟨_, _, ends_iff.mpr (.first start gaveUp)⟩
  · by_cases gaveUp' : w.clock m'.calls - w.clock made.calls > leaveSampleInterval
    · exact ⟨_, _, ends_iff.mpr (.second start gaveUp stop gaveUp')⟩
    · exact ⟨_, _, ends_iff.mpr (.appends start gaveUp stop gaveUp')⟩

/-- Both times lie in the sample's interval, in order. -/
theorem sampleWithin_bounds (monotone : Monotone w.clock) {fuel : ℕ} {made made' : Made}
    {distance : ℚ} (h : sampleWithin w fuel made = some (some distance, made')) :
    0 ≤ distance ∧ distance ≤ 171.5 := by
  cases ends_iff.mp h with
  | @appends startTime stopTime m m' start inTime stop inTime' =>
      have begun : w.clock made.calls ≤ w.clock (made.calls + 1) := monotone (Nat.le_succ _)
      have between : w.clock m.calls ≤ w.clock (m.calls + 1) := monotone (Nat.le_succ _)
      obtain ⟨grows, below⟩ := waitWithin_bounds monotone start (monotone (Nat.le_succ _))
      obtain ⟨grows', below'⟩ := waitWithin_bounds monotone stop (monotone (Nat.le_succ _))
      have ordered : startTime ≤ stopTime := below.trans (between.trans grows')
      have elapsed : stopTime - startTime ≤ leaveSampleInterval := by linarith
      unfold leaveSampleInterval at elapsed
      constructor
      · linarith
      · norm_num at elapsed ⊢
        linarith

/-- Whatever the echo line does, an iteration whose clock does not go back and gets
past its deadline ends, and appends nothing or one distance that sound travels
there and back in the interval. -/
theorem sample_ends (w : Surroundings) (monotone : Monotone w.clock) (made : Made) (n : ℕ)
    (late : w.clock made.calls + leaveSampleInterval < w.clock n) :
    ∃ appended made', (∀ fuel, n < fuel → sampleWithin w fuel made = some (appended, made')) ∧
      ∀ distance ∈ appended, 0 ≤ distance ∧ distance ≤ 171.5 := by
  obtain ⟨appended, made', ended⟩ := sampleWithin_ends monotone late.le (Nat.lt_succ_self n)
  refine ⟨appended, made', fun fuel enough => sampleWithin_mono enough ended, ?_⟩
  rintro distance rfl
  exact sampleWithin_bounds monotone ended

end Iteration

/-- A clock that ticks every millisecond, and one echo. -/
def ticking : Surroundings where
  echo k := k == 1 || k == 2
  clock k := k / 1000

theorem monotone_ticking : Monotone ticking.clock := by
  intro k k' le
  have le' : (k : ℚ) ≤ k' := by exact_mod_cast le
  simp only [ticking]
  linarith

/-- Its first iteration measures 68.6 cm. -/
theorem sample_ends_ticking :
    sampleWithin ticking 12 ⟨0, 0⟩ = some (some 68.6, ⟨4, 9⟩) ∧
      ∃ appended made', (∀ fuel, 11 < fuel →
          sampleWithin ticking fuel ⟨0, 0⟩ = some (appended, made')) ∧
        ∀ distance ∈ appended, 0 ≤ distance ∧ distance ≤ 171.5 := by
  refine ⟨by decide +kernel, sample_ends ticking monotone_ticking ⟨0, 0⟩ 11 ?_⟩
  decide +kernel

/-! ### The trace of an iteration -/

/-- A trace that takes what the surroundings answer, in order; its polls carry
instants besides. -/
inductive Observed (w : Surroundings) (instants : ℕ → ℚ) :
    Made → List Observation → Made → Prop where
  | nil (made : Made) : Observed w instants made [] made
  | poll {made made' : Made} {trace : List Observation}
      (rest : Observed w instants ⟨made.polls + 1, made.calls⟩ trace made') :
      Observed w instants made (.poll (w.echo made.polls) (instants made.polls) :: trace) made'
  | time (site : Site) {made made' : Made} {trace : List Observation}
      (rest : Observed w instants ⟨made.polls, made.calls + 1⟩ trace made') :
      Observed w instants made (.time site (w.clock made.calls) :: trace) made'

section Traces

variable {w : Surroundings} {instants : ℕ → ℚ}

theorem Observed.append {made m made' : Made} {trace trace' : List Observation}
    (h : Observed w instants made trace m) (h' : Observed w instants m trace' made') :
    Observed w instants made (trace ++ trace') made' := by
  induction h with
  | nil => exact h'
  | poll _ ih => exact .poll (ih h')
  | time site _ ih => exact .time site (ih h')

/-- What a loop takes, `waitWhile` consumes. -/
theorem waitWithin_observed (instants : ℕ → ℚ) {level : Bool} {sampleStartTime : ℚ} {fuel : ℕ}
    {made made' : Made} {stored last : ℚ}
    (h : waitWithin w level sampleStartTime fuel made stored = some (last, made')) :
    ∃ used, Observed w instants made used made' ∧
      ∀ rest, waitWhile level sampleStartTime stored (used ++ rest) = some (last, rest) := by
  induction fuel generalizing made stored with
  | zero => cases h
  | succ fuel ih =>
      rcases waitWithin_eq_some.mp h with
        ⟨other, rfl, rfl⟩ | ⟨found, late, rfl, rfl⟩ | ⟨found, early, rest⟩
      · exact ⟨_, .poll (.nil _), fun rest => waitWhile_left other _ _ _ rest⟩
      · refine ⟨_, .poll (.time .test (.nil _)), fun rest => ?_⟩
        rw [found]
        exact waitWhile_deadline late _ _ _ rest
      · obtain ⟨used, taken, consumed⟩ := ih rest
        refine ⟨_, .poll (.time .test (.time .store taken)), fun rest => ?_⟩
        rw [found]
        exact (waitWhile_round early _ _ _ _ _).trans (consumed rest)

/-- What an iteration takes is a trace over which `sensorSample` appends the same. -/
theorem sampleWithin_observed (instants : ℕ → ℚ) {fuel : ℕ} {made made' : Made}
    {appended : Option ℚ} (h : sampleWithin w fuel made = some (appended, made')) :
    ∃ trace, Observed w instants made trace made' ∧ sensorSample trace = some appended := by
  cases ends_iff.mp h with
  | @first startTime m start late =>
      obtain ⟨used, taken, consumed⟩ := waitWithin_observed instants start
      refine ⟨_, .time .sampleStart (.time .store (taken.append (.time .check (.nil _)))), ?_⟩
      simp [sensorSample, consumed, late]
  | @second startTime stopTime m m' start inTime stop late =>
      obtain ⟨used, taken, consumed⟩ := waitWithin_observed instants start
      obtain ⟨used', taken', consumed'⟩ := waitWithin_observed instants stop
      refine ⟨_, .time .sampleStart (.time .store (taken.append
        (.time .check (.time .store (taken'.append (.time .check (.nil _))))))), ?_⟩
      simp [sensorSample, consumed, inTime, consumed', late]
  | @appends startTime stopTime m m' start inTime stop inTime' =>
      obtain ⟨used, taken, consumed⟩ := waitWithin_observed instants start
      obtain ⟨used', taken', consumed'⟩ := waitWithin_observed instants stop
      refine ⟨_, .time .sampleStart (.time .store (taken.append
        (.time .check (.time .store (taken'.append (.time .check (.nil _))))))), ?_⟩
      simp [sensorSample, consumed, inTime, consumed', inTime']

end Traces

/-! ### The thread -/

/-- Iterations one after the other, and the distances they append. -/
def sensorThread (w : Surroundings) (fuel : ℕ) : ℕ → Made → Option (List ℚ × Made)
  | 0, made => some ([], made)
  | count + 1, made =>
      match sampleWithin w fuel made with
      | none => none
      | some (appended, made) =>
          match sensorThread w fuel count made with
          | none => none
          | some (distances, made) => some (appended.toList ++ distances, made)

section Thread

variable {w : Surroundings}

theorem sensorThread_succ {fuel count : ℕ} {made made' : Made} {distances : List ℚ} :
    sensorThread w fuel (count + 1) made = some (distances, made') ↔
      ∃ appended m rest, sampleWithin w fuel made = some (appended, m) ∧
        sensorThread w fuel count m = some (rest, made') ∧ distances = appended.toList ++ rest := by
  rw [sensorThread]
  constructor
  · intro h
    split at h
    · cases h
    · rename_i appended m sample
      split at h
      · cases h
      · rename_i rest m' later
        cases h
        exact ⟨appended, m, rest, sample, later, rfl⟩
  · rintro ⟨appended, m, rest, sample, later, rfl⟩
    simp only [sample, later]

/-- On a clock that gets past every deadline the thread never hangs, and all it
appends is in range. -/
theorem sensorThread_ends (monotone : Monotone w.clock)
    (unbounded : ∀ t, ∃ n, t < w.clock n) (count : ℕ) (made : Made) :
    ∃ bound distances made', (∀ fuel, bound < fuel →
        sensorThread w fuel count made = some (distances, made')) ∧
      distances.length ≤ count ∧ ∀ distance ∈ distances, 0 ≤ distance ∧ distance ≤ 171.5 := by
  induction count generalizing made with
  | zero => exact ⟨0, [], made, fun fuel _ => rfl, le_rfl, by simp⟩
  | succ count ih =>
      obtain ⟨n, late⟩ := unbounded (w.clock made.calls + leaveSampleInterval)
      obtain ⟨appended, m, ended⟩ := sampleWithin_ends monotone late.le (Nat.lt_succ_self n)
      obtain ⟨bound, distances, made', later, short, inRange⟩ := ih m
      refine ⟨max n bound, appended.toList ++ distances, made', ?_, ?_, ?_⟩
      · intro fuel enough
        have sample := sampleWithin_mono (lt_of_le_of_lt (le_max_left n bound) enough) ended
        have others := later fuel (lt_of_le_of_lt (le_max_right n bound) enough)
        exact sensorThread_succ.mpr ⟨appended, m, distances, sample, others, rfl⟩
      · rw [List.length_append]
        have one : appended.toList.length ≤ 1 := by cases appended <;> simp
        omega
      · intro distance mem
        rcases List.mem_append.mp mem with new | old
        · obtain rfl := Option.mem_toList.mp new
          exact sampleWithin_bounds monotone ended
        · exact inRange distance old

/-- What the thread takes falls into the traces of its iterations. -/
theorem sensorThread_observed (instants : ℕ → ℚ) {fuel count : ℕ} {made made' : Made}
    {distances : List ℚ} (h : sensorThread w fuel count made = some (distances, made')) :
    ∃ samples : List (List Observation), samples.length = count ∧
      Observed w instants made samples.flatten made' ∧
      (∀ trace ∈ samples, sensorSample trace ≠ none) ∧
      distances = samples.filterMap fun trace => (sensorSample trace).join := by
  induction count generalizing made distances with
  | zero =>
      cases h
      exact ⟨[], rfl, .nil _, by simp, rfl⟩
  | succ count ih =>
      obtain ⟨appended, m, rest, sample, later, rfl⟩ := sensorThread_succ.mp h
      obtain ⟨trace, taken, appends⟩ := sampleWithin_observed instants sample
      obtain ⟨samples, length, others, complete, rfl⟩ := ih later
      refine ⟨trace :: samples, congrArg Nat.succ length, taken.append others, ?_, ?_⟩
      · intro trace' mem
        rcases List.mem_cons.mp mem with rfl | mem
        · rw [appends]
          exact Option.some_ne_none appended
        · exact complete trace' mem
      · cases appended <;> simp [appends]

end Thread

end Adas.Ecu
