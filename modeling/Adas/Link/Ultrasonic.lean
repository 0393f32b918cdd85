import Mathlib.Tactic.Linarith
import Adas.Ecu.Sample
import Adas.Link.Pins

/-!
The sensor of the two-wire alert link (`distance()` of `sensor_ultrassonico.py`,
and its copy in `ultrassonic_plus_encoder.py`).

Its two polling loops have no deadline: a measurement returns exactly when the
line shows an echo (`distance_returns_iff`), and a line that goes dead stops the
program within a bounded number of measurements (`measurements_bounded`), where
`sensor_thread` of `Adas.Ecu.Sample` always goes on. `StopTime` is first read
before the loops; an echo that only one poll finds high leaves that reading in
place, so the distance is not positive and the brake level is written
(`single_poll_brakes`).
-/

namespace Adas.Link.Ultrasonic

open Ecu

/-! ### A measurement -/

/-- `while GPIO.input(GPIO_ECHO) == level: stored = time.time()`, at most `fuel`
polls of it. -/
def pollWhile (w : Surroundings) (level : Bool) : ℕ → Made → ℚ → Option (ℚ × Made)
  | 0, _, _ => none
  | fuel + 1, made, stored =>
      if w.echo made.polls = level then
        pollWhile w level fuel ⟨made.polls + 1, made.calls + 1⟩ (w.clock made.calls)
      else some (stored, ⟨made.polls + 1, made.calls⟩)

/-- The body that both programs share, at most `fuel` polls a loop. -/
def measure (w : Surroundings) (fuel : ℕ) (made : Made) : Option (ℚ × Made) :=
  let startTime := w.clock made.calls
  let stopTime := w.clock (made.calls + 1)
  match pollWhile w false fuel ⟨made.polls, made.calls + 2⟩ startTime with
  | none => none
  | some (startTime, made) =>
      match pollWhile w true fuel made stopTime with
      | none => none
      | some (stopTime, made) => some ((stopTime - startTime) * 34300 / 2, made)

/-- `distance` of `sensor_ultrassonico.py`. -/
def distance : Surroundings → ℕ → Made → Option (ℚ × Made) := measure

/-- `distance` of `ultrassonic_plus_encoder.py`. -/
def distancePlus : Surroundings → ℕ → Made → Option (ℚ × Made) := measure

/-- The main loop: the distances of `count` rounds. -/
def mainLoop (w : Surroundings) (fuel : ℕ) : ℕ → Made → Option (List ℚ × Made)
  | 0, made => some ([], made)
  | count + 1, made =>
      match distance w fuel made with
      | none => none
      | some (dist, made) =>
          match mainLoop w fuel count made with
          | none => none
          | some (dists, made) => some (dist :: dists, made)

/-! ### The loops -/

section Measure

variable {w : Surroundings}

/-- Poll `n` is the first one from `m` on that does not find `level`. -/
structure FirstOther (w : Surroundings) (level : Bool) (m n : ℕ) : Prop where
  from' : m ≤ n
  same : ∀ j, m ≤ j → j < n → w.echo j = level
  other : w.echo n = !level

theorem FirstOther.here {level : Bool} {m : ℕ} (other : w.echo m = !level) :
    FirstOther w level m m :=
  ⟨le_rfl, fun _ from' before => absurd (lt_of_le_of_lt from' before) (lt_irrefl _), other⟩

theorem FirstOther.later {level : Bool} {m n : ℕ} (found : w.echo m = level)
    (h : FirstOther w level (m + 1) n) : FirstOther w level m n := by
  refine ⟨Nat.le_of_succ_le h.from', fun j from' before => ?_, h.other⟩
  rcases Nat.eq_or_lt_of_le from' with rfl | beyond
  · exact found
  · exact h.same j beyond before

theorem FirstOther.unique {level : Bool} {m n n' : ℕ} (h : FirstOther w level m n)
    (h' : FirstOther w level m n') : n = n' := by
  have le {a b : ℕ} (ha : FirstOther w level m a) (hb : FirstOther w level m b) : a ≤ b := by
    by_contra before
    have same := ha.same b hb.from' (not_le.mp before)
    rw [hb.other] at same
    exact Bool.not_ne_self level same
  exact le_antisymm (le h h') (le h' h)

theorem exists_firstOther (level : Bool) {m n : ℕ} (from' : m ≤ n) (other : w.echo n = !level) :
    ∃ k, FirstOther w level m k := by
  induction n using Nat.strong_induction_on with
  | _ n ih =>
      by_cases earlier : ∃ j, m ≤ j ∧ j < n ∧ w.echo j = !level
      · obtain ⟨j, after, before, found⟩ := earlier
        exact ih j before after found
      · refine ⟨n, from', fun j after before => ?_, other⟩
        by_contra found
        exact earlier ⟨j, after, before, Bool.eq_not_of_ne found⟩

/-- What a loop that starts at poll `p` and reading `c` has stored at poll `n`. -/
def stampAt (w : Surroundings) (p c : ℕ) (stored : ℚ) (n : ℕ) : ℚ :=
  if n = p then stored else w.clock (c + (n - p) - 1)

theorem stampAt_succ {p n : ℕ} (beyond : p + 1 ≤ n) (c : ℕ) (stored : ℚ) :
    stampAt w (p + 1) (c + 1) (w.clock c) n = stampAt w p c stored n := by
  unfold stampAt
  rw [if_neg (show n ≠ p by omega)]
  split
  · rename_i one
    rw [one, Nat.add_sub_cancel_left, Nat.add_sub_cancel]
  · congr 1
    omega

/-- A loop ends at the first poll that finds the other level. -/
theorem pollWhile_eq_some {level : Bool} {fuel p c : ℕ} {stored last : ℚ} {made' : Made} :
    pollWhile w level fuel ⟨p, c⟩ stored = some (last, made') ↔
      ∃ n, FirstOther w level p n ∧ n < p + fuel ∧ last = stampAt w p c stored n ∧
        made' = ⟨n + 1, c + (n - p)⟩ := by
  induction fuel generalizing p c stored with
  | zero =>
      constructor
      · intro h
        cases h
      · rintro ⟨n, first, within, -⟩
        exact absurd within (not_lt.mpr first.from')
  | succ fuel ih =>
      simp only [pollWhile]
      by_cases found : w.echo p = level
      · have next (n : ℕ) (beyond : p + 1 ≤ n) : c + 1 + (n - (p + 1)) = c + (n - p) := by omega
        rw [if_pos found, ih]
        constructor
        · rintro ⟨n, first, within, rfl, rfl⟩
          refine ⟨n, first.later found, by omega, stampAt_succ first.from' c stored, ?_⟩
          rw [next n first.from']
        · rintro ⟨n, first, within, rfl, rfl⟩
          have beyond : p + 1 ≤ n := by
            rcases Nat.eq_or_lt_of_le first.from' with same | beyond
            · have other := first.other
              rw [← same, found] at other
              exact absurd other (Bool.not_ne_self level).symm
            · exact beyond
          refine ⟨n, ⟨beyond, fun j after => first.same j (Nat.le_of_succ_le after), first.other⟩,
            by omega, (stampAt_succ beyond c stored).symm, ?_⟩
          rw [next n beyond]
      · have other : w.echo p = !level := Bool.eq_not_of_ne found
        rw [if_neg found]
        constructor
        · intro h
          cases h
          exact ⟨p, .here other, by omega, by simp [stampAt], by simp⟩
        · rintro ⟨n, first, -, rfl, rfl⟩
          obtain rfl := first.unique (.here other)
          simp [stampAt]

theorem FirstOther.pollWhile {level : Bool} {fuel p n : ℕ} (h : FirstOther w level p n)
    (within : n < p + fuel) (c : ℕ) (stored : ℚ) :
    pollWhile w level fuel ⟨p, c⟩ stored = some (stampAt w p c stored n, ⟨n + 1, c + (n - p)⟩) :=
  pollWhile_eq_some.mpr ⟨n, h, within, rfl, rfl⟩

/-! ### One measurement -/

/-- The echo a measurement takes from poll `p` on: its first high poll, and the
first low one after that. -/
structure Pulse (w : Surroundings) (p up down : ℕ) : Prop where
  rise : FirstOther w false p up
  fall : FirstOther w true (up + 1) down

/-- A measurement returns at the end of the first echo, and subtracts what its two
loops stored. -/
theorem measure_eq_some {fuel p c : ℕ} {dist : ℚ} {made' : Made} :
    measure w fuel ⟨p, c⟩ = some (dist, made') ↔
      ∃ up down, Pulse w p up down ∧ up < p + fuel ∧ down < up + 1 + fuel ∧
        dist = (stampAt w (up + 1) (c + 2 + (up - p)) (w.clock (c + 1)) down -
          stampAt w p (c + 2) (w.clock c) up) * 34300 / 2 ∧
        made' = ⟨down + 1, c + 2 + (up - p) + (down - (up + 1))⟩ := by
  constructor
  · intro h
    simp only [measure] at h
    split at h
    · cases h
    · rename_i startTime m start
      obtain ⟨up, first, within, rfl, rfl⟩ := pollWhile_eq_some.mp start
      split at h
      · cases h
      · rename_i stopTime m' stop
        obtain ⟨down, second, within', rfl, rfl⟩ := pollWhile_eq_some.mp stop
        cases h
        exact ⟨up, down, ⟨first, second⟩, within, within', rfl, rfl⟩
  · rintro ⟨up, down, pulse, within, within', rfl, rfl⟩
    simp only [measure, pulse.rise.pollWhile within, pulse.fall.pollWhile within']

/-- A measurement returns, with enough polls, exactly when the line goes high and low
again: without an echo it never does. -/
theorem distance_returns_iff (w : Surroundings) (made : Made) :
    (∃ fuel result, distance w fuel made = some result) ↔
      ∃ j ≥ made.polls, w.echo j = true ∧ ∃ j' > j, w.echo j' = false := by
  obtain ⟨p, c⟩ := made
  constructor
  · rintro ⟨fuel, ⟨dist, made'⟩, returned⟩
    obtain ⟨up, down, pulse, -⟩ := measure_eq_some.mp returned
    exact ⟨up, pulse.rise.from', pulse.rise.other, down, pulse.fall.from', pulse.fall.other⟩
  · rintro ⟨j, from', high, j', after, low⟩
    obtain ⟨up, first⟩ := exists_firstOther false from' high
    have before : up ≤ j := by
      by_contra beyond
      have same := first.same j from' (not_le.mp beyond)
      rw [high] at same
      cases same
    obtain ⟨down, second⟩ := exists_firstOther true (show up + 1 ≤ j' by omega) low
    exact ⟨up + down + 1, _, measure_eq_some.mpr
      ⟨up, down, ⟨first, second⟩, by omega, by omega, rfl, rfl⟩⟩

/-! ### The sign -/

/-- What a loop stores is a reading no later than its last one. -/
theorem stampAt_le (monotone : Monotone w.clock) {p c n : ℕ} {stored : ℚ}
    (read : stored ≤ w.clock c) :
    stampAt w p c stored n ≤ w.clock (c + (n - p)) := by
  unfold stampAt
  split
  · exact read.trans (monotone (Nat.le_add_right _ _))
  · exact monotone (Nat.sub_le _ _)

/-- An echo that one poll finds high, and no poll before it: the difference of two
readings the wrong way round. -/
theorem Pulse.dist_le_of_single (monotone : Monotone w.clock) {fuel p c up : ℕ} {dist : ℚ}
    {made' : Made}
    (single : Pulse w p up (up + 1)) (waited : p < up)
    (measured : measure w fuel ⟨p, c⟩ = some (dist, made')) : dist ≤ 0 := by
  obtain ⟨up', down, pulse, -, -, rfl, -⟩ := measure_eq_some.mp measured
  obtain rfl := pulse.rise.unique single.rise
  obtain rfl := pulse.fall.unique single.fall
  have start : stampAt w p (c + 2) (w.clock c) up' = w.clock (c + 2 + (up' - p) - 1) :=
    if_neg (by omega)
  have stop (k : ℕ) : stampAt w (up' + 1) k (w.clock (c + 1)) (up' + 1) = w.clock (c + 1) :=
    if_pos rfl
  have order : w.clock (c + 1) ≤ w.clock (c + 2 + (up' - p) - 1) := monotone (by omega)
  rw [start, stop]
  linarith

/-- Any other echo gives a distance that is not negative. -/
theorem Pulse.nonneg (monotone : Monotone w.clock) {fuel p c up down : ℕ} {dist : ℚ}
    {made' : Made} (pulse : Pulse w p up down) (several : up + 1 < down ∨ up = p)
    (measured : measure w fuel ⟨p, c⟩ = some (dist, made')) :
    0 ≤ dist := by
  obtain ⟨up', down', pulse', -, -, rfl, -⟩ := measure_eq_some.mp measured
  obtain rfl := pulse'.rise.unique pulse.rise
  obtain rfl := pulse'.fall.unique pulse.fall
  have order : stampAt w p (c + 2) (w.clock c) up' ≤
      stampAt w (up' + 1) (c + 2 + (up' - p)) (w.clock (c + 1)) down' := by
    have start : stampAt w p (c + 2) (w.clock c) up' ≤ w.clock (c + 2 + (up' - p)) :=
      stampAt_le monotone (monotone (Nat.le_add_right _ _))
    unfold stampAt at start ⊢
    rcases several with later | first
    · rw [if_neg (show down' ≠ up' + 1 by omega)]
      exact start.trans (monotone (by omega))
    · rw [if_pos first]
      split
      · exact monotone (Nat.le_succ _)
      · exact monotone (by omega)
  linarith

/-- On a clock that does not go back, a measurement that waited for its echo is
negative or zero if one poll found the echo high, and then the brake level is
written, however far the obstacle; with more polls in the echo it is not negative. -/
theorem single_poll_brakes (w : Surroundings) (monotone : Monotone w.clock)
    (fuel p c up down : ℕ) (dist : ℚ) (made' : Made)
    (pulse : Pulse w p up down) (waited : p < up)
    (measured : distance w fuel ⟨p, c⟩ = some (dist, made')) :
    (down = up + 1 → dist ≤ 0 ∧ Pins.alertLevel dist = 2) ∧ (up + 1 < down → 0 ≤ dist) := by
  constructor
  · rintro rfl
    have negative := pulse.dist_le_of_single monotone waited measured
    refine ⟨negative, if_pos ?_⟩
    rw [Pins.autobrakeDist]
    linarith
  · intro later
    exact pulse.nonneg monotone (Or.inl later) measured

/-- A clock in milliseconds, and a line that is high at poll 1 only. -/
def glint : Surroundings where
  echo k := k == 1
  clock k := k / 1000

/-- It measures -17.15 cm. -/
theorem single_poll_brakes_glint :
    distance glint 3 ⟨0, 0⟩ = some (-17.15, ⟨3, 3⟩) ∧ Pins.alertLevel (-17.15) = 2 := by
  have measured : distance glint 3 ⟨0, 0⟩ = some (-17.15, ⟨3, 3⟩) := by decide +kernel
  have low : ∀ j, 0 ≤ j → j < 1 → glint.echo j = false := by
    intro j _ before
    obtain rfl := Nat.lt_one_iff.mp before
    rfl
  have pulse : Pulse glint 0 1 2 := ⟨⟨by decide, low, rfl⟩, .here rfl⟩
  obtain ⟨single, -⟩ :=
    single_poll_brakes glint monotone_ticking 3 0 0 1 2 _ _ pulse (by decide) measured
  exact ⟨measured, (single rfl).2⟩

/-! ### A dead line -/

/-- A measurement needs a line that is not stuck, and takes two polls or more. -/
theorem measure_polls {n fuel : ℕ} {level : Bool} (stuck : ∀ j ≥ n, w.echo j = level)
    {made made' : Made} {dist : ℚ} (measured : measure w fuel made = some (dist, made')) :
    made.polls < n ∧ made.polls + 2 ≤ made'.polls := by
  obtain ⟨p, c⟩ := made
  obtain ⟨up, down, pulse, -, -, -, rfl⟩ := measure_eq_some.mp measured
  have rise := pulse.rise.from'
  have fall := pulse.fall.from'
  refine ⟨?_, by simp only; omega⟩
  by_contra dead
  have high := pulse.rise.other
  have low := pulse.fall.other
  simp only at dead
  rw [stuck up (by omega)] at high
  rw [stuck down (by omega), high] at low
  cases low

end Measure

/-- Once the line is stuck, at whatever level, the main loop completes no more than
half as many measurements as there were polls left before; then it writes no pin
again. -/
theorem measurements_bounded (w : Surroundings) (n : ℕ) (level : Bool)
    (stuck : ∀ j ≥ n, w.echo j = level) (fuel count : ℕ) (made made' : Made) (dists : List ℚ)
    (ran : mainLoop w fuel count made = some (dists, made')) :
    2 * dists.length ≤ n - made.polls + 1 := by
  induction count generalizing made dists with
  | zero =>
      cases ran
      simp
  | succ count ih =>
      rw [mainLoop] at ran
      split at ran
      · cases ran
      · rename_i dist m measured
        split at ran
        · cases ran
        · rename_i rest m' later
          cases ran
          obtain ⟨alive, polls⟩ := measure_polls stuck measured
          have fewer := ih m rest later
          rw [List.length_cons]
          omega

/-- One echo, and the line stays low: one measurement. -/
theorem measurements_bounded_ticking :
    ∃ dists made', mainLoop ticking 4 1 ⟨0, 0⟩ = some (dists, made') ∧
      2 * dists.length ≤ 3 - 0 + 1 := by
  have enabled : (mainLoop ticking 4 1 ⟨0, 0⟩).isSome = true := by decide +kernel
  obtain ⟨⟨dists, made'⟩, ran⟩ := Option.isSome_iff_exists.mp enabled
  refine ⟨dists, made', ran, measurements_bounded ticking 3 false ?_ 4 1 ⟨0, 0⟩ made' dists ran⟩
  intro j later
  have apart : j ≠ 1 ∧ j ≠ 2 := by omega
  simp [ticking, apart]

end Adas.Link.Ultrasonic
