import Adas.Ecu.Filter

/-!
When the decision loop dies.

The serial thread may store a new speed at any moment, so each of the three
tests of the chain can find another value of `current_speed`; a `TornInput`
keeps all three. The chain has no `else`, and the module constants
`AUTOBRAKE_DIST` and `COLLISION_DIST` do not stand in for it, because the
function's own assignments make both names local. What an iteration leaves bound
stays bound, so the whole run is decided by its first iteration
(`neverDies_iff`): a first speed of 80 or more ends the thread
(`dies_at_stage_four`).
-/

namespace Adas.Ecu

open Lib

/-! ### Iterations that race the serial thread -/

/-- What one iteration finds when `current_speed` may change between the tests:
`currentSpeed` is what the first test reads. -/
structure TornInput extends CycleInput where
  currentSpeed2 : ℚ
  currentSpeed3 : ℚ
  deriving DecidableEq, Repr

/-- The chain of `EcuState.setLimits`, each test with its own read. -/
def EcuState.setTornLimits (e : EcuState) (x : TornInput) : EcuState :=
  if x.currentSpeed < lessThanValueStage1 then
    { e with autobrakeDist := some autobrakeDistStage1, collisionDist := some collisionDistState1 }
  else if x.currentSpeed2 < lessThanValueStage2 then
    { e with autobrakeDist := some autobrakeDistStage2, collisionDist := some collisionDistState2 }
  else if x.currentSpeed3 < lessThanValueStage3 then
    { e with autobrakeDist := some autobrakeDistStage3, collisionDist := some collisionDistState3 }
  else e

/-- One iteration. -/
def tornCycle (e : EcuState) (x : TornInput) : Except PyError (EcuState × Message) := do
  let e := e.setTornLimits x
  let d ← e.decide x.lessDistance
  let e := e.apply d
  return ({ e with i := nextIndex e.i }, ⟨e.currentState, e.i⟩)

/-- A speed that no store changes meanwhile. -/
def CycleInput.steady (x : CycleInput) : TornInput := ⟨x, x.currentSpeed, x.currentSpeed⟩

@[simp] theorem tornCycle_steady (e : EcuState) (x : CycleInput) :
    tornCycle e x.steady = cycle e x := rfl

/-- Every iteration of the run completes and sends one message. -/
def NeverDies (xs : List TornInput) : Prop :=
  ∀ done, done <+: xs →
    ∃ e ms, runOut tornCycle EcuState.init done = .ok (e, ms) ∧ ms.length = done.length

/-! ### Bound and unbound limits -/

/-- Some test of the chain succeeds. -/
def TornInput.Slow (x : TornInput) : Prop :=
  x.currentSpeed < lessThanValueStage1 ∨ x.currentSpeed2 < lessThanValueStage2 ∨
    x.currentSpeed3 < lessThanValueStage3

/-- Without a store meanwhile, the last test decides. -/
theorem slow_steady_iff {x : CycleInput} :
    x.steady.Slow ↔ x.currentSpeed < lessThanValueStage3 := by
  have stage2 : lessThanValueStage2 < lessThanValueStage3 := by decide
  have stage1 : lessThanValueStage1 < lessThanValueStage3 := by decide
  constructor
  · rintro (slow | slow | slow)
    · exact slow.trans stage1
    · exact slow.trans stage2
    · exact slow
  · intro slow
    exact Or.inr (Or.inr slow)

theorem EcuState.bound_setTornLimits {e : EcuState} {x : TornInput} (h : x.Slow ∨ e.Bound) :
    (e.setTornLimits x).Bound := by
  unfold EcuState.setTornLimits
  split
  · exact ⟨rfl, rfl⟩
  · split
    · exact ⟨rfl, rfl⟩
    · split
      · exact ⟨rfl, rfl⟩
      · rename_i fast1 fast2 fast3
        refine h.resolve_left ?_
        rintro (slow | slow | slow)
        · exact fast1 slow
        · exact fast2 slow
        · exact fast3 slow

theorem EcuState.setTornLimits_of_fast {e : EcuState} {x : TornInput} (fast : ¬ x.Slow) :
    e.setTornLimits x = e := by
  unfold EcuState.setTornLimits
  rw [if_neg fun slow => fast (Or.inl slow), if_neg fun slow => fast (Or.inr (Or.inl slow)),
    if_neg fun slow => fast (Or.inr (Or.inr slow))]

/-- With both limits bound the decision reads no unbound local. -/
theorem EcuState.Bound.decide_ok {e : EcuState} (bound : e.Bound) (d : ℚ) :
    ∃ decision, e.decide d = .ok decision := by
  simp only [EcuState.decide, bound.autobrake, bound.collision, readLocal, bind, Except.bind]
  split
  · exact ⟨_, rfl⟩
  · split
    · exact ⟨_, rfl⟩
    · exact ⟨_, rfl⟩

/-- An iteration that binds the limits, or finds them bound, completes and
leaves them bound. -/
theorem tornCycle_ok {e : EcuState} {x : TornInput} (h : x.Slow ∨ e.Bound) :
    ∃ e' m, tornCycle e x = .ok (e', m) ∧ e'.Bound := by
  have bound := EcuState.bound_setTornLimits h
  obtain ⟨decision, decided⟩ := bound.decide_ok x.lessDistance
  have stepped : tornCycle e x = .ok
      ({ (e.setTornLimits x).apply decision with i := nextIndex (e.setTornLimits x).i },
        ⟨((e.setTornLimits x).apply decision).currentState, (e.setTornLimits x).i⟩) := by
    simp only [tornCycle, decided, bind, Except.bind, pure, Except.pure]
    rfl
  exact ⟨_, _, stepped, bound.autobrake, bound.collision⟩

/-- One that does neither raises at its first comparison. -/
theorem tornCycle_unbound {e : EcuState} {x : TornInput} (fast : ¬ x.Slow)
    (unbound : e.autobrakeDist = none) :
    tornCycle e x = .error (.unboundLocal "AUTOBRAKE_DIST") := by
  simp [tornCycle, EcuState.setTornLimits_of_fast fast, EcuState.decide, unbound, readLocal, bind,
    Except.bind]

/-! ### Runs -/

/-- The loop survives every run whose first iteration finds, at one of the three
tests, a speed below the limit of that test, and no other run but the empty one. -/
theorem neverDies_iff (xs : List TornInput) : NeverDies xs ↔ ∀ x ∈ xs.head?, x.Slow := by
  constructor
  · intro alive x first
    by_contra fast
    obtain ⟨rest, rfl⟩ := List.head?_eq_some_iff.mp first
    obtain ⟨e, ms, ran, -⟩ := alive [x] ⟨rest, rfl⟩
    obtain ⟨e', m, ms', stepped, -⟩ := runOut_cons_eq_ok.mp ran
    rw [tornCycle_unbound fast rfl] at stepped
    cases stepped
  · intro slow done kept
    cases done with
    | nil => exact ⟨_, [], rfl, rfl⟩
    | cons x done =>
        obtain ⟨rest, rfl⟩ := kept
        obtain ⟨e, m, first, bound⟩ := tornCycle_ok (e := EcuState.init) (Or.inl (slow x rfl))
        obtain ⟨e', ms, others, length⟩ := runOut_total
          (fun s a (bound : s.Bound) => tornCycle_ok (x := a) (Or.inr bound)) bound done
        exact ⟨e', m :: ms, runOut_cons_eq_ok.mpr ⟨e, m, ms, first, others, rfl⟩,
          congrArg Nat.succ length⟩

/-- The serial thread has stored 80 before the first iteration. -/
theorem dies_at_stage_four : ¬ NeverDies [(⟨[], [], 80⟩ : CycleInput).steady] := by
  intro alive
  obtain ⟨e, ms, ran, -⟩ := alive _ List.prefix_rfl
  cases ran

end Adas.Ecu
