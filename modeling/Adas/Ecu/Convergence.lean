import Adas.Ecu.Filter

/-!
Bounded engagement and release: how fast the state follows the readings.

Eight readings of the danger zone in a row hold the brake, from any window
(`braking_of_eight`): the first seven fill it with alarms. Outside the danger
zone a reading records the code of its own zone (`recorded_of_quiet`), so a zone
seen often enough fills the window with its code and is assigned
(`state_of_five`). Six readings of one zone decide the state, and among eleven
readings of two zones one zone was seen six times.
-/

namespace Adas.Ecu

open Lib

/-! ### Engagement -/

/-- Close readings count as long as they fit in the window. -/
theorem length_le_closeCount (ds : List ℚ) {es : List ℚ} (near : ∀ d ∈ es, close d = true)
    (fits : es.length ≤ eventsArraySize) : es.length ≤ closeCount (ds ++ es) := by
  have kept : (ds ++ es).length - eventsArraySize ≤ ds.length := by
    rw [List.length_append]
    omega
  rw [closeCount, List.rtake, List.drop_append_of_le_length kept, List.countP_append,
    List.countP_eq_length.mpr near]
  exact Nat.le_add_left _ _

/-- Eight or more dangerous readings in a row hold the brake. -/
theorem braking_of_eight (ds : List ℚ) {es : List ℚ} (danger : ∀ d ∈ es, zone d = .autobrake)
    (eight : 8 ≤ es.length) : (reference (ds ++ es)).state = .autobrake := by
  induction es using List.reverseRecOn with
  | nil => simp at eight
  | append_singleton es d _ =>
      have seven : (es.rtake 7).length = 7 := by
        rw [List.length_append, List.length_singleton] at eight
        rw [length_rtake]
        exact min_eq_left (Nat.le_of_succ_le_succ eight)
      have near : ∀ e ∈ es.rtake 7, close e = true := fun e he => by
        have inside : e ∈ es := mem_of_mem_rtake he
        rw [close_iff, danger e (by simp [inside])]
        decide
      have alarms := length_le_closeCount (ds ++ es.take (es.length - 7)) near
        (by rw [seven]; decide)
      rw [List.append_assoc, take_append_rtake, seven] at alarms
      have assigned : ((reference (ds ++ es)).decide d).assigned = some .autobrake := by
        refine assigned_autobrake_iff.mpr ⟨danger d (by simp), ?_⟩
        rw [count_alarms]
        exact alarms
      rw [← List.append_assoc, state_step, assigned, Option.getD_some]

/-! ### Quiet readings -/

/-- The code a reading of a zone stands for. -/
def Zone.code : Zone → StateId
  | .autobrake => .autobrake
  | .collision => .precollision
  | .normal => .normal

theorem Zone.code_eq_autobrake_iff {z : Zone} : z.code = .autobrake ↔ z = .autobrake := by
  cases z <;> simp [Zone.code]

/-- Both quiet zones record their own code, whatever the window holds. -/
theorem recorded_of_quiet {w : List StateId} {z : Zone} (quiet : z ≠ .autobrake) :
    (rule w z).recorded = z.code := by
  cases z with
  | autobrake => exact absurd rfl quiet
  | collision => rfl
  | normal => rfl

/-- A quiet zone is assigned exactly over more than four of its codes, and
nothing else is. -/
theorem assigned_of_quiet {w : List StateId} {z : Zone} (quiet : z ≠ .autobrake) :
    (rule w z).assigned = if 4 < w.count z.code then some z.code else none := by
  cases z with
  | autobrake => exact absurd rfl quiet
  | collision => rfl
  | normal => rfl

/-- Quiet readings record their zones' codes one after the other. -/
theorem codes_append_quiet (ds : List ℚ) {es : List ℚ} (quiet : ∀ d ∈ es, zone d ≠ .autobrake) :
    (reference (ds ++ es)).codes = (reference ds).codes ++ es.map (fun d => (zone d).code) := by
  induction es using List.reverseRecOn with
  | nil => simp
  | append_singleton es d ih =>
      rw [← List.append_assoc, reference_snoc]
      simp only [Reference.step, Reference.decide]
      rw [ih fun e he => quiet e (by simp [he]), recorded_of_quiet (quiet d (by simp))]
      simp

/-- The window holds at least one code for each of the last twenty quiet readings. -/
theorem countP_le_count_window (ds : List ℚ) {es : List ℚ}
    (quiet : ∀ d ∈ es, zone d ≠ .autobrake) (c : StateId) :
    (es.rtake eventsArraySize).countP (fun d => (zone d).code == c) ≤
      (reference (ds ++ es)).window.count c := by
  have codes := codes_append_quiet ds quiet
  have counted := countP_rtake_le_recent (· == c) eventsArraySize .normal (reference ds).codes
    (es.map fun d => (zone d).code)
  rw [← codes] at counted
  simpa [rtake_map, List.countP_map, Function.comp_def, Reference.window,
    List.count_eq_countP] using counted

/-- A quiet reading never enters the brake. -/
theorem state_ne_autobrake_step {ds : List ℚ} {d : ℚ} (quiet : zone d ≠ .autobrake)
    (before : (reference ds).state ≠ .autobrake) :
    (reference (ds ++ [d])).state ≠ .autobrake := by
  rw [state_step, Reference.decide, assigned_of_quiet quiet]
  split
  · exact fun h => quiet (Zone.code_eq_autobrake_iff.mp h)
  · exact before

theorem state_ne_autobrake_append {ds es : List ℚ} (quiet : ∀ d ∈ es, zone d ≠ .autobrake)
    (before : (reference ds).state ≠ .autobrake) :
    (reference (ds ++ es)).state ≠ .autobrake := by
  induction es using List.reverseRecOn with
  | nil => simpa using before
  | append_singleton es d ih =>
      rw [← List.append_assoc]
      exact state_ne_autobrake_step (quiet d (by simp)) (ih fun e he => quiet e (by simp [he]))

/-- A quiet reading after five of its own zone within the last twenty quiet ones
is assigned. -/
theorem state_of_five {ds es : List ℚ} {d : ℚ} (quiet : ∀ e ∈ es ++ [d], zone e ≠ .autobrake)
    (five : 4 < (es.rtake eventsArraySize).countP fun e => (zone e).code == (zone d).code) :
    (reference (ds ++ es ++ [d])).state = (zone d).code := by
  have before : ∀ e ∈ es, zone e ≠ .autobrake := fun e he => quiet e (List.mem_append_left _ he)
  have counted := countP_le_count_window ds before (zone d).code
  rw [state_step, Reference.decide, assigned_of_quiet (quiet d (by simp)), if_pos (by omega),
    Option.getD_some]

/-- Six or more readings of one quiet zone decide the state, and it keeps that
value for as long as they go on. -/
theorem state_of_six {ds es : List ℚ} {z : Zone} (quiet : z ≠ .autobrake)
    (inZone : ∀ d ∈ es, zone d = z) (six : 6 ≤ es.length) :
    (reference (ds ++ es)).state = z.code := by
  induction es using List.reverseRecOn with
  | nil => simp at six
  | append_singleton es d _ =>
      have last : zone d = z := inZone d (by simp)
      rw [← List.append_assoc, ← last]
      refine state_of_five (fun e he => by rw [inZone e he]; exact quiet) ?_
      rw [List.countP_eq_length.mpr]
      · rw [List.length_append, List.length_singleton] at six
        rw [length_rtake]
        exact lt_min (by decide) (Nat.lt_of_succ_le (Nat.le_of_succ_le_succ six))
      · intro e he
        have inside : e ∈ es := mem_of_mem_rtake he
        simp [inZone e (by simp [inside]), last]

/-- Six readings of one quiet zone among at most twenty quiet ones release the
brake, whatever the others are. -/
theorem released_of_six {ds es : List ℚ} {z : Zone} (quiet : ∀ d ∈ es, zone d ≠ .autobrake)
    (fits : es.length ≤ eventsArraySize) (six : 5 < es.countP fun d => zone d == z) :
    (reference (ds ++ es)).state ≠ .autobrake := by
  obtain ⟨a, d, b, rfl, last, five⟩ := exists_split_of_lt_countP _ six
  have inZone : zone d = z := by simpa using last
  have whole : a.rtake eventsArraySize = a := by
    rw [List.length_append] at fits
    exact rtake_eq_self (Nat.le_of_add_right_le fits)
  have decided : (reference (ds ++ a ++ [d])).state = (zone d).code := by
    have upTo : ∀ e ∈ a ++ [d], zone e ≠ .autobrake := fun e he => quiet e (by
      rw [List.append_cons]
      exact List.mem_append_left _ he)
    refine state_of_five upTo ?_
    rw [whole]
    refine lt_of_lt_of_le (by omega : 4 < a.countP fun e => zone e == z) (List.countP_mono_left ?_)
    intro e _ he
    have : zone e = z := by simpa using he
    simp [this, inZone]
  have split : ds ++ (a ++ d :: b) = ds ++ a ++ [d] ++ b := by simp
  rw [split]
  refine state_ne_autobrake_append (fun e he => quiet e (by simp [he])) ?_
  rw [decided]
  exact fun h => quiet d (by simp) (Zone.code_eq_autobrake_iff.mp h)

/-- Every quiet reading is a warning or a safe one. -/
theorem countP_quiet {es : List ℚ} (quiet : ∀ d ∈ es, zone d ≠ .autobrake) :
    es.countP (fun d => zone d == .collision) + es.countP (fun d => zone d == .normal) =
      es.length := by
  induction es with
  | nil => rfl
  | cons d es ih =>
      have rest := ih fun e he => quiet e (by simp [he])
      have head := quiet d (by simp)
      rw [List.countP_cons, List.countP_cons, List.length_cons]
      cases h : zone d with
      | autobrake => exact absurd h head
      | collision => simp; omega
      | normal => simp; omega

/-- Eleven readings outside the danger zone, in any mix, release the brake. -/
theorem released_of_eleven {ds es : List ℚ} (quiet : ∀ d ∈ es, zone d ≠ .autobrake)
    (eleven : 11 ≤ es.length) : (reference (ds ++ es)).state ≠ .autobrake := by
  have split : ds ++ es = ds ++ es.take 11 ++ es.drop 11 := by
    rw [List.append_assoc, List.take_append_drop]
  have first : ∀ d ∈ es.take 11, zone d ≠ .autobrake :=
    fun d hd => quiet d (List.mem_of_mem_take hd)
  have length : (es.take 11).length = 11 := by simpa using eleven
  have pigeonhole := countP_quiet first
  rw [split]
  refine state_ne_autobrake_append (fun d hd => quiet d (List.mem_of_mem_drop hd)) ?_
  by_cases warnings : 5 < (es.take 11).countP fun d => zone d == .collision
  · exact released_of_six first (by rw [length]; decide) warnings
  · exact released_of_six (z := .normal) first (by rw [length]; decide) (by omega)

/-- From every reachable state: six safe readings give state 0 and six warning
ones state 1, for as long as they go on, and eleven readings that are not
dangerous leave the brake. -/
theorem release_bounded (xs ys : List CycleInput) (bound : LimitsBound (xs ++ ys)) :
    ∃ e ms, getMedianDistancesThread (xs ++ ys) = .ok (e, ms) ∧
      (6 ≤ ys.length → (∀ y ∈ ys, 25 ≤ y.lessDistance) → e.currentState = .normal) ∧
      (6 ≤ ys.length → (∀ y ∈ ys, 16 ≤ y.lessDistance ∧ y.lessDistance < 25) →
        e.currentState = .precollision) ∧
      (11 ≤ ys.length → (∀ y ∈ ys, 16 ≤ y.lessDistance) → e.currentState ≠ .autobrake) := by
  obtain ⟨e, ms, run, after⟩ := thread_refines bound
  have state := after.refines.state
  rw [distances_append] at state
  refine ⟨e, ms, run, fun six safe => ?_, fun six warned => ?_, fun eleven quiet => ?_⟩
  · rw [state, state_of_six (z := .normal) (by decide) _ (by simpa using six)]
    · rfl
    · simpa [distances, zone_normal_iff] using safe
  · rw [state, state_of_six (z := .collision) (by decide) _ (by simpa using six)]
    · rfl
    · simpa [distances, zone_collision_iff] using warned
  · rw [state]
    refine released_of_eleven ?_ (by simpa using eleven)
    simpa [distances, zone_autobrake_iff] using quiet

/-- Eight dangerous readings enter the brake; six safe ones leave it for good. -/
theorem release_bounded_still :
    ∃ e ms, getMedianDistancesThread
        (List.replicate 8 (CycleInput.still 10) ++ List.replicate 6 (CycleInput.still 30)) =
          .ok (e, ms) ∧ e.currentState = .normal := by
  obtain ⟨e, ms, run, safe, -, -⟩ := release_bounded (List.replicate 8 (CycleInput.still 10))
    (List.replicate 6 (CycleInput.still 30)) (by decide)
  exact ⟨e, ms, run, safe (by decide) (by decide +kernel)⟩

end Adas.Ecu
