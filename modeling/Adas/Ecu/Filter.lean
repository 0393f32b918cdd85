import Adas.Ecu.Reference

/-!
The ring-buffer filter refines the reference.

`Refines` is the representation relation: the ring read from `i` is the
reference's window, and the states agree. `cycle_refines` is its step lemma; it
needs the limits to be bound, which holds from the first iteration whose speed
is below stage 3's limit on (`LimitsBound`), and then for ever. `thread_refines`
is the run lemma every later result about the loop goes through: it turns a run
of the loop into a fold over its fused distances.
-/

namespace Adas.Ecu

open Lib

/-! ### The limits -/

/-- The fused distances of a run, oldest first. -/
def distances (xs : List CycleInput) : List ℚ := xs.map CycleInput.lessDistance

@[simp] theorem distances_nil : distances [] = [] := rfl

@[simp] theorem distances_append (xs ys : List CycleInput) :
    distances (xs ++ ys) = distances xs ++ distances ys := List.map_append

@[simp] theorem distances_cons (x : CycleInput) (xs : List CycleInput) :
    distances (x :: xs) = x.lessDistance :: distances xs := rfl

@[simp] theorem distances_singleton (x : CycleInput) : distances [x] = [x.lessDistance] := rfl

theorem distances_take (xs : List CycleInput) (k : ℕ) :
    (distances xs).take k = distances (xs.take k) := List.map_take.symm

@[simp] theorem distances_length (xs : List CycleInput) : (distances xs).length = xs.length :=
  List.length_map ..

/-- The first iteration, if there is one, runs below stage 3's speed. -/
def LimitsBound (xs : List CycleInput) : Prop :=
  ∀ x ∈ xs.head?, x.currentSpeed < lessThanValueStage3

instance (xs : List CycleInput) : Decidable (LimitsBound xs) := by
  unfold LimitsBound
  infer_instance

theorem LimitsBound.mono {xs ys : List CycleInput} (bound : LimitsBound ys) (h : xs <+: ys) :
    LimitsBound xs := by
  obtain ⟨zs, rfl⟩ := h
  cases xs with
  | nil => simp [LimitsBound]
  | cons x xs => simpa [LimitsBound] using bound

/-- Both locals hold the limits. -/
structure EcuState.Bound (e : EcuState) : Prop where
  autobrake : e.autobrakeDist = some 16
  collision : e.collisionDist = some 25

/-- Only a speed of stage 3 or above leaves unbound limits unbound. -/
theorem EcuState.bound_setLimits {e : EcuState} {speed : ℚ}
    (h : speed < lessThanValueStage3 ∨ e.Bound) : (e.setLimits speed).Bound := by
  unfold EcuState.setLimits
  split
  · exact ⟨rfl, rfl⟩
  · split
    · exact ⟨rfl, rfl⟩
    · split
      · exact ⟨rfl, rfl⟩
      · rename_i fast
        exact h.resolve_left fast

/-- The chain on the speed touches nothing but the limits. -/
@[simp] theorem EcuState.setLimits_i (e : EcuState) (speed : ℚ) : (e.setLimits speed).i = e.i := by
  unfold EcuState.setLimits
  repeat' split
  all_goals rfl

@[simp] theorem EcuState.setLimits_lastStates (e : EcuState) (speed : ℚ) :
    (e.setLimits speed).lastStates = e.lastStates := by
  unfold EcuState.setLimits
  repeat' split
  all_goals rfl

@[simp] theorem EcuState.setLimits_currentState (e : EcuState) (speed : ℚ) :
    (e.setLimits speed).currentState = e.currentState := by
  unfold EcuState.setLimits
  repeat' split
  all_goals rfl

/-! ### The representation -/

/-- The ring read from `i` is the reference's window, and the states agree. -/
structure Refines (e : EcuState) (r : Reference) : Prop where
  ring : contents e.lastStates e.i = r.window
  state : e.currentState = r.state

theorem refines_init : Refines EcuState.init (reference []) :=
  ⟨contents_replicate _ _, rfl⟩

theorem Refines.count {e : EcuState} {r : Reference} (h : Refines e r) (c : StateId) :
    e.lastStates.count c = r.window.count c := by
  rw [← h.ring, count_contents]

theorem nextIndex_val (i : Fin eventsArraySize) :
    (nextIndex i).val = (i.val + 1) % eventsArraySize := by
  have lt := i.isLt
  unfold nextIndex
  split
  · rename_i last
    have : i.val = 19 := by simp only [eventsArraySize] at *; omega
    simp [this, eventsArraySize]
  · rename_i notLast
    have : i.val + 1 < eventsArraySize := by omega
    exact (Nat.mod_eq_of_lt this).symm

/-- With the limits bound, the branches decide what the rules decide. -/
theorem decide_eq {e : EcuState} {r : Reference} (h : Refines e r) (bound : e.Bound) (d : ℚ) :
    e.decide d = .ok (r.decide d) := by
  simp only [EcuState.decide, bound.autobrake, bound.collision, readLocal, Reference.decide, zone]
  simp only [autobrakeBranch, collisionBranch, normalBranch, h.count]
  by_cases danger : d < 16
  · simp [danger, bind, Except.bind, pure, Except.pure, rule, countAutobrakeFalseAlarm]
  · by_cases warning : d < 25
    · simp only [danger, warning, bind, Except.bind, pure, Except.pure, rule, if_false, if_true]
      split <;> simp_all [countPrecollisionFalseAlarm]
    · simp only [danger, warning, bind, Except.bind, pure, Except.pure, rule, if_false]
      split <;> simp_all [countNormalFalseAlarm]

/-- What one iteration does when the limits are bound: everything it writes, and
what it sends. -/
theorem cycle_refines {e : EcuState} {r : Reference} {x : CycleInput} (h : Refines e r)
    (bound : (e.setLimits x.currentSpeed).Bound) :
    ∃ e', cycle e x = .ok (e', ⟨(r.step x.lessDistance).state, e.i⟩) ∧
      Refines e' (r.step x.lessDistance) ∧ e'.Bound ∧ e'.i = nextIndex e.i := by
  have limits : Refines (e.setLimits x.currentSpeed) r :=
    ⟨by simpa using h.ring, by simpa using h.state⟩
  have decided := decide_eq limits bound x.lessDistance
  refine ⟨{ (e.setLimits x.currentSpeed).apply (r.decide x.lessDistance) with i := nextIndex e.i },
    ?_, ⟨?_, ?_⟩, ⟨bound.autobrake, bound.collision⟩, rfl⟩
  · simp [cycle, decided, bind, Except.bind, pure, Except.pure, EcuState.apply, Reference.step,
      h.state]
  · rw [window_step, ← h.ring]
    simpa [EcuState.apply] using contents_set e.lastStates e.i (nextIndex e.i) _ (nextIndex_val e.i)
  · simp [EcuState.apply, Reference.step, h.state]

/-- Without limits an iteration raises. -/
theorem cycle_unbound {e : EcuState} {x : CycleInput} (unbound : e.autobrakeDist = none)
    (fast : ¬ x.currentSpeed < lessThanValueStage3) :
    cycle e x = .error (.unboundLocal "AUTOBRAKE_DIST") := by
  have stage2 : ¬ x.currentSpeed < lessThanValueStage2 := fun h => fast (h.trans (by decide))
  have stage1 : ¬ x.currentSpeed < lessThanValueStage1 := fun h => fast (h.trans (by decide))
  simp [cycle, EcuState.setLimits, EcuState.decide, stage1, stage2, fast, unbound, readLocal, bind,
    Except.bind]

/-! ### Runs -/

/-- The messages of a run: after each reading the state, with the index of the
slot it wrote. -/
def messages (ds : List ℚ) : List Message :=
  (List.range ds.length).map fun k =>
    ⟨(reference (ds.take (k + 1))).state, ⟨k % eventsArraySize, Nat.mod_lt _ (by decide)⟩⟩

@[simp] theorem messages_length (ds : List ℚ) : (messages ds).length = ds.length := by
  simp [messages]

theorem messages_snoc (ds : List ℚ) (d : ℚ) :
    messages (ds ++ [d]) =
      messages ds ++
        [⟨((reference ds).step d).state,
          ⟨ds.length % eventsArraySize, Nat.mod_lt _ (by decide)⟩⟩] := by
  simp only [messages, List.length_append, List.length_singleton, List.range_succ, List.map_append,
    List.map_singleton]
  congr 1
  · refine List.map_congr_left fun k hk => ?_
    have lt := List.mem_range.mp hk
    rw [List.take_append_of_le_length (by omega)]
  · rw [List.take_of_length_le (by simp), reference_snoc]

/-- Message `n` carries the state after reading `n`, and the index of its slot. -/
theorem messages_getElem? {ds : List ℚ} {n : ℕ} {m : Message} (at_n : (messages ds)[n]? = some m) :
    n < ds.length ∧ m.state = (reference (ds.take (n + 1))).state ∧
      m.i.val = n % eventsArraySize := by
  rw [messages, List.getElem?_map] at at_n
  obtain ⟨k, range, rfl⟩ := Option.map_eq_some_iff.mp at_n
  obtain ⟨lt, rfl⟩ := List.getElem?_eq_some_iff.mp range
  rw [List.length_range] at lt
  simpa using lt

/-- What is true of the loop after a run over `xs` that sent `ms`. -/
structure After (xs : List CycleInput) (e : EcuState) (ms : List Message) : Prop where
  refines : Refines e (reference (distances xs))
  index : e.i.val = xs.length % eventsArraySize
  limits : xs ≠ [] → e.Bound
  sent : ms = messages (distances xs)

theorem after_init : After [] EcuState.init [] :=
  ⟨refines_init, rfl, fun h => absurd rfl h, rfl⟩

/-- The step lemma of `thread_refines`. -/
theorem After.cycle {xs : List CycleInput} {e : EcuState} {ms : List Message} {x : CycleInput}
    (h : After xs e ms) (bound : LimitsBound (xs ++ [x])) :
    ∃ e' m, cycle e x = .ok (e', m) ∧ After (xs ++ [x]) e' (ms ++ [m]) := by
  have limits : (e.setLimits x.currentSpeed).Bound := by
    apply EcuState.bound_setLimits
    cases xs with
    | nil => exact Or.inl (by simpa [LimitsBound] using bound)
    | cons y ys => exact Or.inr (h.limits (by simp))
  obtain ⟨e', stepped, refines, bound', index⟩ := cycle_refines h.refines limits
  refine ⟨e', _, stepped, by simpa using refines, ?_, fun _ => bound', ?_⟩
  · rw [index, nextIndex_val, h.index]
    simp
  · rw [h.sent, distances_append, distances_singleton, messages_snoc]
    congr 3
    exact Fin.ext (by simp [h.index])

/-- A run whose first speed binds the limits never raises, and leaves the loop
in the state of the reference. -/
theorem thread_refines {xs : List CycleInput} (bound : LimitsBound xs) :
    ∃ e ms, getMedianDistancesThread xs = .ok (e, ms) ∧ After xs e ms := by
  induction xs using List.reverseRecOn with
  | nil => exact ⟨_, _, rfl, after_init⟩
  | append_singleton xs x ih =>
      obtain ⟨e, ms, before, after⟩ := ih (bound.mono (List.prefix_append _ _))
      obtain ⟨e', m, stepped, after'⟩ := after.cycle bound
      exact ⟨e', _, runOut_snoc_eq_ok.mpr ⟨e, ms, m, before, stepped, rfl⟩, after'⟩

/-- What such a run sends. -/
theorem thread_messages {xs : List CycleInput} (bound : LimitsBound xs) :
    ∃ e, getMedianDistancesThread xs = .ok (e, messages (distances xs)) := by
  obtain ⟨e, ms, run, after⟩ := thread_refines bound
  exact ⟨e, after.sent ▸ run⟩

/-- The other way round: a run that did not raise bound its limits first. -/
theorem limitsBound_of_run {xs : List CycleInput} {e : EcuState} {ms : List Message}
    (h : getMedianDistancesThread xs = .ok (e, ms)) : LimitsBound xs := by
  cases xs with
  | nil => simp [LimitsBound]
  | cons x xs =>
      obtain ⟨e', m, ms', first, -⟩ := runOut_cons_eq_ok.mp h
      by_cases slow : x.currentSpeed < lessThanValueStage3
      · simpa [LimitsBound] using slow
      · rw [cycle_unbound rfl slow] at first
        cases first

/-- Every run that did not raise is described by the reference. -/
theorem after_of_run {xs : List CycleInput} {e : EcuState} {ms : List Message}
    (h : getMedianDistancesThread xs = .ok (e, ms)) : After xs e ms := by
  obtain ⟨e', ms', run, after⟩ := thread_refines (limitsBound_of_run h)
  rw [run] at h
  cases h
  exact after

/-! ### The decisions of a run -/

/-- What iteration `x` decides after a run over `xs`. -/
def decisionAt (xs : List CycleInput) (x : CycleInput) : Except PyError Decision := do
  let (e, _) ← getMedianDistancesThread xs
  (e.setLimits x.currentSpeed).decide x.lessDistance

theorem decisionAt_eq {xs : List CycleInput} {x : CycleInput} (bound : LimitsBound (xs ++ [x])) :
    decisionAt xs x = .ok ((reference (distances xs)).decide x.lessDistance) := by
  obtain ⟨e, ms, run, after⟩ := thread_refines (bound.mono (List.prefix_append _ _))
  have limits : (e.setLimits x.currentSpeed).Bound := by
    apply EcuState.bound_setLimits
    cases xs with
    | nil => exact Or.inl (by simpa [LimitsBound] using bound)
    | cons y ys => exact Or.inr (after.limits (by simp))
  have refines : Refines (e.setLimits x.currentSpeed) (reference (distances xs)) :=
    ⟨by simpa using after.refines.ring, by simpa using after.refines.state⟩
  simp [decisionAt, run, bind, Except.bind, decide_eq refines limits]

/-- The reference never forgets a code. -/
theorem codes_prefix (ds ds' : List ℚ) :
    (reference ds).codes <+: (reference (ds ++ ds')).codes := by
  induction ds' using List.reverseRecOn with
  | nil => simp
  | append_singleton ds' d ih =>
      rw [← List.append_assoc, reference_snoc]
      exact ih.trans (List.prefix_append _ _)

/-! ### The sliding window -/

/-- The loop after a run over `xs`, described over the last twenty iterations. -/
structure SlidingWindow (xs : List CycleInput) (e : EcuState) : Prop where
  /-- The ring read from `i` is the last twenty codes, oldest first, padded with 0. -/
  ring : contents e.lastStates e.i =
    recent eventsArraySize .normal (reference (distances xs)).codes
  /-- The codes are those the iterations recorded. -/
  recorded : ∀ pre x post, xs = pre ++ x :: post → ∃ d, decisionAt pre x = .ok d ∧
    (reference (distances xs)).codes[pre.length]? = some d.recorded
  /-- The non-zero slots are the close readings of the last twenty. -/
  nonzero : e.lastStates.toList.countP (fun c => c.id ≠ 0) =
    ((distances xs).rtake eventsArraySize).countP (· < 25)
  /-- An iteration assigns 2, and records 2, exactly on a danger-zone reading
  over at least seven close ones. -/
  autobrake : ∀ pre x post, xs = pre ++ x :: post → ∃ d, decisionAt pre x = .ok d ∧
    (d.assigned = some .autobrake ↔ x.lessDistance < 16 ∧
      7 ≤ ((distances pre).rtake eventsArraySize).countP (· < 25)) ∧
    (d.recorded = .autobrake ↔ d.assigned = some .autobrake)
  /-- The state is the reference's. -/
  state : e.currentState = (reference (distances xs)).state

theorem id_ne_zero_iff (c : StateId) : c.id ≠ 0 ↔ alarm c = true := by
  cases c <;> simp [StateId.id, alarm]

/-- The ring-buffer filter is a sliding window over an unbounded history. -/
theorem filter_eq_sliding_window (xs : List CycleInput) (bound : LimitsBound xs) :
    ∃ e ms, getMedianDistancesThread xs = .ok (e, ms) ∧ SlidingWindow xs e := by
  obtain ⟨e, ms, run, after⟩ := thread_refines bound
  have decided : ∀ pre x post, xs = pre ++ x :: post →
      decisionAt pre x = .ok ((reference (distances pre)).decide x.lessDistance) := by
    rintro pre x post rfl
    exact decisionAt_eq (bound.mono ⟨post, by simp⟩)
  refine ⟨e, ms, run, after.refines.ring, ?_, ?_, ?_, after.refines.state⟩
  · intro pre x post split
    refine ⟨_, decided pre x post split, ?_⟩
    have kept := codes_prefix (distances (pre ++ [x])) (distances post)
    rw [← distances_append, List.append_assoc, List.singleton_append, ← split] at kept
    have inside : pre.length < (reference (distances (pre ++ [x]))).codes.length := by
      rw [codes_length]
      simp
    rw [List.prefix_iff_getElem?.mp kept pre.length inside]
    simp [Reference.step]
  · have same : (fun c : StateId => decide (c.id ≠ 0)) = alarm := by
      funext c
      rw [Bool.eq_iff_iff, decide_eq_true_iff, id_ne_zero_iff]
    have count := countP_alarm_window (distances xs)
    rw [← after.refines.ring, contents, (List.rotate_perm _ _).countP_eq] at count
    rw [same, count]
    rfl
  · intro pre x post split
    refine ⟨_, decided pre x post split, ?_, recorded_autobrake_iff⟩
    rw [Reference.decide, assigned_autobrake_iff, zone_autobrake_iff, count_alarms]
    rfl

/-- Eight danger-zone readings at standstill: the eighth one enters the brake. -/
theorem filter_eq_sliding_window_still :
    LimitsBound (List.replicate 8 (CycleInput.still 10)) ∧
      ∃ e ms, getMedianDistancesThread (List.replicate 8 (CycleInput.still 10)) = .ok (e, ms) ∧
        SlidingWindow (List.replicate 8 (CycleInput.still 10)) e :=
  ⟨by decide, filter_eq_sliding_window _ (by decide)⟩

example : ((getMedianDistancesThread (List.replicate 8 (CycleInput.still 10))).map
    fun out => out.1.currentState) = .ok .autobrake := by decide +kernel

end Adas.Ecu
