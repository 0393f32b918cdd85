import Mathlib.Algebra.Order.Field.Rat
import Adas.Lib.Run

/-!
The two-wire alert link (`sensor_ultrassonico.py`, `adas_perception.c`).

The writer sets two pins one after the other, the reader reads them one after
the other, and nothing keeps the two apart. `Encodes` says what the pins show at
any moment: the AUTOBRAKE pin the level being written, the COLLISION pin the one
written before, until the second write. A reader that finds the first pin low
has seen a level below 2 in effect, and what it then finds on the second pin
bounds the level in effect at that moment (`glitch_free`).
-/

namespace Adas.Link.Pins

open Lib

/-! ### The writer's branches -/

def autobrakeDist : ℚ := 7
def collisionDist : ℚ := 15

/-- The level a distance stands for. -/
def alertLevel (dist : ℚ) : ℕ :=
  if dist < autobrakeDist then 2 else if dist < collisionDist then 1 else 0

/-- The values the branch of a distance writes to `GPIO_AUTOBRAKE` and then to
`GPIO_COLLISION`. -/
def pinWrites (dist : ℚ) : Bool × Bool :=
  if dist < autobrakeDist then (true, true)
  else if dist < collisionDist then (false, true)
  else (false, false)

/-! ### Both programs -/

/-- Which pin `ADAS_listener_TASK` reads next. -/
inductive Listener where
  | autobrake | collision
  deriving DecidableEq, Repr

/-- The pins, the level whose two writes were completed last, the distance whose
second write is still to come, and the reader. -/
structure PinState where
  gpioAutobrake : Bool
  gpioCollision : Bool
  level : ℕ
  updating : Option ℚ
  listener : Listener
  currentStatus : ℕ
  deriving DecidableEq

def PinState.init : PinState := ⟨false, false, 0, none, .autobrake, 0⟩

inductive PinAction where
  /-- The first write of a cycle that measured `dist`. -/
  | writeAutobrake (dist : ℚ)
  /-- The second write of that cycle. -/
  | writeCollision
  | readAutobrake
  | readCollision
  deriving DecidableEq

def PinAction.IsWrite : PinAction → Prop
  | .writeAutobrake _ => True
  | .writeCollision => True
  | .readAutobrake => False
  | .readCollision => False

/-- One pin access. Each program makes its own in order; a status is set by the
access that decides it. -/
def step (s : PinState) : PinAction → Option PinState
  | .writeAutobrake dist =>
      match s.updating with
      | none => some { s with gpioAutobrake := (pinWrites dist).1, updating := some dist }
      | some _ => none
  | .writeCollision =>
      match s.updating with
      | none => none
      | some dist =>
          some { s with
            gpioCollision := (pinWrites dist).2
            updating := none
            level := alertLevel dist }
  | .readAutobrake =>
      match s.listener with
      | .autobrake =>
          if s.gpioAutobrake then some { s with currentStatus := 2 }
          else some { s with listener := .collision }
      | .collision => none
  | .readCollision =>
      match s.listener with
      | .autobrake => none
      | .collision =>
          some { s with
            listener := .autobrake
            currentStatus := if s.gpioCollision then 1 else 0 }

/-- What an access can do, one line each. -/
theorem step_cases {s s' : PinState} {a : PinAction} (h : step s a = some s') :
    (∃ dist, a = .writeAutobrake dist ∧ s.updating = none ∧
      s' = { s with gpioAutobrake := (pinWrites dist).1, updating := some dist }) ∨
    (∃ dist, a = .writeCollision ∧ s.updating = some dist ∧
      s' = { s with
        gpioCollision := (pinWrites dist).2
        updating := none
        level := alertLevel dist }) ∨
    (a = .readAutobrake ∧ s.listener = .autobrake ∧ s.gpioAutobrake = true ∧
      s' = { s with currentStatus := 2 }) ∨
    (a = .readAutobrake ∧ s.listener = .autobrake ∧ s.gpioAutobrake = false ∧
      s' = { s with listener := .collision }) ∨
    (a = .readCollision ∧ s.listener = .collision ∧
      s' = { s with
        listener := .autobrake
        currentStatus := if s.gpioCollision then 1 else 0 }) := by
  cases a with
  | writeAutobrake dist =>
      cases updating : s.updating with
      | none => exact Or.inl ⟨dist, rfl, rfl, by simpa [step, updating] using h.symm⟩
      | some other => simp [step, updating] at h
  | writeCollision =>
      cases updating : s.updating with
      | none => simp [step, updating] at h
      | some dist => exact Or.inr (Or.inl ⟨dist, rfl, rfl, by simpa [step, updating] using h.symm⟩)
  | readAutobrake =>
      cases listener : s.listener with
      | collision => simp [step, listener] at h
      | autobrake =>
          cases high : s.gpioAutobrake with
          | true =>
              refine Or.inr (Or.inr (Or.inl ⟨rfl, rfl, rfl, ?_⟩))
              simpa [step, listener, high] using h.symm
          | false =>
              refine Or.inr (Or.inr (Or.inr (Or.inl ⟨rfl, rfl, rfl, ?_⟩)))
              simpa [step, listener, high] using h.symm
  | readCollision =>
      cases listener : s.listener with
      | autobrake => simp [step, listener] at h
      | collision =>
          exact Or.inr (Or.inr (Or.inr (Or.inr ⟨rfl, rfl, by simpa [step, listener] using h.symm⟩)))

/-! ### Levels in effect -/

/-- During an update both the old and the new level are in effect. -/
def PinState.InEffect (s : PinState) (l : ℕ) : Prop :=
  l = s.level ∨ ∃ dist, s.updating = some dist ∧ l = alertLevel dist

/-- The accesses from a reader's first read to the one that sets the status. -/
inductive Reading : List PinAction → Prop where
  | autobrake : Reading [.readAutobrake]
  | collision {writes : List PinAction} (others : ∀ a ∈ writes, a.IsWrite) :
      Reading (.readAutobrake :: (writes ++ [.readCollision]))

/-- The last access of the run set a status. -/
def SetsStatus (as : List PinAction) (s : PinState) : Prop :=
  s.listener = .autobrake ∧
    (as.getLast? = some .readAutobrake ∨ as.getLast? = some .readCollision)

/-- A level in effect at some access of `window`, its first and last included. -/
def InWindow (before window : List PinAction) (l : ℕ) : Prop :=
  ∃ q s, q <+: window.dropLast ∧ run step PinState.init (before ++ q) = some s ∧ s.InEffect l

/-- The status is no lower and no higher than levels in effect during the reading. -/
def Backed (before window : List PinAction) (status : ℕ) : Prop :=
  (∃ l, InWindow before window l ∧ l ≤ status) ∧ (∃ l, InWindow before window l ∧ status ≤ l)

/-! ### What the pins show -/

/-- The AUTOBRAKE pin shows the level being written, the COLLISION pin the one
written before, until the second write. -/
structure Encodes (s : PinState) : Prop where
  autobrake : s.gpioAutobrake = true ↔ (s.updating.map alertLevel).getD s.level = 2
  collision : s.gpioCollision = true ↔ 1 ≤ s.level
  bounded : s.level ≤ 2

theorem alertLevel_le_two (dist : ℚ) : alertLevel dist ≤ 2 := by
  unfold alertLevel
  split
  · exact le_rfl
  · split <;> decide

theorem pinWrites_fst (dist : ℚ) : (pinWrites dist).1 = true ↔ alertLevel dist = 2 := by
  unfold pinWrites alertLevel
  split
  · simp
  · split <;> simp

theorem pinWrites_snd (dist : ℚ) : (pinWrites dist).2 = true ↔ 1 ≤ alertLevel dist := by
  unfold pinWrites alertLevel
  split
  · simp
  · split <;> simp

theorem encodes_init : Encodes PinState.init := ⟨by decide, by decide, by decide⟩

theorem Encodes.step {s s' : PinState} {a : PinAction} (h : Encodes s)
    (stepped : step s a = some s') : Encodes s' := by
  rcases step_cases stepped with ⟨dist, -, -, rfl⟩ | ⟨dist, -, updating, rfl⟩ |
    ⟨-, -, -, rfl⟩ | ⟨-, -, -, rfl⟩ | ⟨-, -, rfl⟩
  · exact ⟨pinWrites_fst dist, h.collision, h.bounded⟩
  · refine ⟨?_, pinWrites_snd dist, alertLevel_le_two dist⟩
    simpa [updating] using h.autobrake
  · exact ⟨h.autobrake, h.collision, h.bounded⟩
  · exact ⟨h.autobrake, h.collision, h.bounded⟩
  · exact ⟨h.autobrake, h.collision, h.bounded⟩

theorem encodes_of_run {as : List PinAction} {s : PinState}
    (ran : run step PinState.init as = some s) : Encodes s :=
  run_invariant encodes_init (fun _ _ _ encodes stepped => encodes.step stepped) ran

theorem PinState.inEffect_newest (s : PinState) :
    s.InEffect ((s.updating.map alertLevel).getD s.level) := by
  cases updating : s.updating with
  | none => exact Or.inl rfl
  | some dist => exact Or.inr ⟨dist, updating, rfl⟩

/-- A high AUTOBRAKE pin: level 2 is in effect. -/
theorem Encodes.high {s : PinState} (h : Encodes s) (high : s.gpioAutobrake = true) :
    s.InEffect 2 := by
  have newest := s.inEffect_newest
  rwa [h.autobrake.mp high] at newest

/-- A low one: so is a level below 2. -/
theorem Encodes.low {s : PinState} (h : Encodes s) (low : s.gpioAutobrake = false) :
    ∃ l, s.InEffect l ∧ l ≤ 1 := by
  refine ⟨_, s.inEffect_newest, ?_⟩
  have bounded : (s.updating.map alertLevel).getD s.level ≤ 2 := by
    cases s.updating with
    | none => exact h.bounded
    | some dist => exact alertLevel_le_two dist
  have other : (s.updating.map alertLevel).getD s.level ≠ 2 := fun two => by
    rw [h.autobrake.mpr two] at low
    cases low
  omega

/-! ### Every reading -/

/-- While the reader is between its two reads, its first one found the AUTOBRAKE
pin low, and only writes came since. -/
def Between (as : List PinAction) (s : PinState) : Prop :=
  s.listener = .collision → ∃ before writes first, as = before ++ .readAutobrake :: writes ∧
    (∀ a ∈ writes, a.IsWrite) ∧ run step PinState.init before = some first ∧
    first.gpioAutobrake = false

theorem between_of_run {as : List PinAction} {s : PinState}
    (ran : run step PinState.init as = some s) :
    run step PinState.init as = some s ∧ Between as s := by
  refine run_induct (P := fun as s => run step PinState.init as = some s ∧ Between as s)
    ⟨rfl, fun h => nomatch h⟩ ?_ ran
  rintro as s a s' ⟨before, between⟩ stepped
  refine ⟨run_snoc_eq_some.mpr ⟨s, before, stepped⟩, ?_⟩
  have write (isWrite : a.IsWrite) (same : s'.listener = s.listener) : Between (as ++ [a]) s' := by
    intro reading
    obtain ⟨pre, writes, first, rfl, others, start, low⟩ := between (same ▸ reading)
    refine ⟨pre, writes ++ [a], first, by simp, ?_, start, low⟩
    intro b mem
    rcases List.mem_append.mp mem with old | new
    · exact others b old
    · exact List.mem_singleton.mp new ▸ isWrite
  rcases step_cases stepped with ⟨dist, rfl, -, rfl⟩ | ⟨dist, rfl, -, rfl⟩ |
    ⟨rfl, idle, -, rfl⟩ | ⟨rfl, -, low, rfl⟩ | ⟨rfl, -, rfl⟩
  · exact write trivial rfl
  · exact write trivial rfl
  · intro reading
    rw [show s.listener = .collision from reading] at idle
    cases idle
  · intro _
    exact ⟨as, [], s, rfl, by simp, before, low⟩
  · intro reading
    cases reading

/-- A reading that ends with its first read. -/
theorem backed_of_high {as : List PinAction} {s : PinState}
    (ran : run step PinState.init as = some s) (high : s.gpioAutobrake = true) :
    Backed as [.readAutobrake] 2 := by
  have shown : InWindow as [.readAutobrake] 2 :=
    ⟨[], s, List.prefix_rfl, by simpa using ran, (encodes_of_run ran).high high⟩
  exact ⟨⟨2, shown, le_rfl⟩, ⟨2, shown, le_rfl⟩⟩

/-- A reading of both pins: a level below 2 was in effect at the first read, and
the second pin bounds the one in effect at the second. -/
theorem backed_of_low {before writes : List PinAction} {first s : PinState}
    (start : run step PinState.init before = some first) (low : first.gpioAutobrake = false)
    (ran : run step PinState.init (before ++ .readAutobrake :: writes) = some s) :
    Backed before (.readAutobrake :: (writes ++ [.readCollision]))
      (if s.gpioCollision then 1 else 0) := by
  have encodes := encodes_of_run ran
  have accesses : (PinAction.readAutobrake :: (writes ++ [.readCollision])).dropLast =
      .readAutobrake :: writes := by
    rw [← List.cons_append, List.dropLast_concat]
  obtain ⟨l, effective, below⟩ := (encodes_of_run start).low low
  have atFirst : InWindow before (.readAutobrake :: (writes ++ [.readCollision])) l :=
    ⟨[], first, List.nil_prefix, by simpa using start, effective⟩
  have atLast : InWindow before (.readAutobrake :: (writes ++ [.readCollision])) s.level :=
    ⟨.readAutobrake :: writes, s, accesses ▸ List.prefix_rfl, ran, Or.inl rfl⟩
  cases found : s.gpioCollision with
  | true => exact ⟨⟨l, atFirst, below⟩, ⟨s.level, atLast, encodes.collision.mp found⟩⟩
  | false =>
      have zero : s.level = 0 := by
        by_contra other
        rw [encodes.collision.mpr (Nat.one_le_iff_ne_zero.mpr other)] at found
        cases found
      exact ⟨⟨s.level, atLast, zero.le⟩, ⟨s.level, atLast, Nat.zero_le _⟩⟩

/-- Every status set ends a reading, and lies between levels that were in effect
during it. -/
theorem glitch_free (as : List PinAction) (s : PinState)
    (ran : run step PinState.init as = some s) (sets : SetsStatus as s) :
    ∃ before window, as = before ++ window ∧ Reading window ∧
      Backed before window s.currentStatus := by
  obtain ⟨idle, last⟩ := sets
  cases as using List.reverseRecOn with
  | nil => simp at last
  | append_singleton as a =>
      obtain ⟨m, before, stepped⟩ := run_snoc_eq_some.mp ran
      rcases step_cases stepped with ⟨dist, rfl, -, -⟩ | ⟨dist, rfl, -, -⟩ |
        ⟨rfl, -, high, rfl⟩ | ⟨rfl, -, -, rfl⟩ | ⟨rfl, reading, rfl⟩
      · simp at last
      · simp at last
      · exact ⟨as, _, rfl, .autobrake, backed_of_high before high⟩
      · cases idle
      · obtain ⟨pre, writes, first, rfl, others, start, low⟩ := (between_of_run before).2 reading
        exact ⟨pre, _, by simp, .collision others, backed_of_low start low before⟩

/-- The obstacle appears between the two reads of one reading: the reader sets 1,
on the way from 0 to 2. -/
theorem glitch_free_appearing :
    let as : List PinAction := [.readAutobrake, .writeAutobrake 5, .writeCollision, .readCollision]
    ∃ s, run step PinState.init as = some s ∧ s.currentStatus = 1 ∧
      ∃ before window, as = before ++ window ∧ Reading window ∧
        Backed before window s.currentStatus := by
  intro as
  have ran : run step PinState.init as = some ⟨true, true, 2, none, .autobrake, 1⟩ := by
    decide +kernel
  exact ⟨_, ran, rfl, glitch_free as _ ran ⟨rfl, Or.inr rfl⟩⟩

end Adas.Link.Pins
