import Mathlib.Algebra.Order.Field.Rat
import Mathlib.Tactic.Linarith

/-!
One ultrasonic sample (`main.py`, `sensor_thread`, the branch without `__debug__`).

An iteration is driven by what it observes: the level each poll of `GPIO_ECHO`
finds, and what each call of `time.time()` returns. `sensorSample` runs the body
over such a trace. The two polling loops are one, `waitWhile`; `Waited` says what
it went through, and `Waited.exit` how it was left.

The checks after the loops give up on `>` where the loops run on `<`, and
nothing remembers why a loop was left. So a recorded distance need not come from
an echo of its own sample: the echo may have been high from the start, or the
clock may stand on the deadline (`own_echo_iff`, `stale_echo_recorded`).
-/

namespace Adas.Ecu

/-! ### The trace of an iteration -/

def leaveSampleInterval : ℚ := 0.01

/-- Which `time.time()` of the body is called: the one stored in
`SampleStartTime`, one stored in `StartTime` or `StopTime`, the one in a loop's
condition, or the one in a check after a loop. -/
inductive Site where
  | sampleStart | store | test | check
  deriving DecidableEq, Repr

/-- What the body observes: the level of the echo at a poll, with the instant of
the poll, which the body does not see; or the clock. -/
inductive Observation where
  | poll (level : Bool) (instant : ℚ)
  | time (site : Site) (instant : ℚ)
  deriving DecidableEq, Repr

def Observation.instant : Observation → ℚ
  | .poll _ instant => instant
  | .time _ instant => instant

/-- The polls of a trace. -/
def polls (trace : List Observation) : List (Bool × ℚ) :=
  trace.filterMap fun
    | .poll level instant => some (level, instant)
    | .time _ _ => none

@[simp] theorem polls_nil : polls [] = [] := rfl

@[simp] theorem polls_poll (level : Bool) (instant : ℚ) (trace : List Observation) :
    polls (.poll level instant :: trace) = (level, instant) :: polls trace := rfl

@[simp] theorem polls_time (site : Site) (instant : ℚ) (trace : List Observation) :
    polls (.time site instant :: trace) = polls trace := rfl

@[simp] theorem polls_append (trace trace' : List Observation) :
    polls (trace ++ trace') = polls trace ++ polls trace' := List.filterMap_append

theorem mem_polls {level : Bool} {instant : ℚ} {trace : List Observation} :
    (level, instant) ∈ polls trace ↔ .poll level instant ∈ trace := by
  induction trace with
  | nil => simp
  | cons o trace ih => cases o <;> simp [ih]

/-! ### The body -/

/-- `while GPIO.input(GPIO_ECHO) == level and time.time() - SampleStartTime <
LEAVE_SAMPLE_INTERVAL: stored = time.time()`: the value it leaves stored, and
what is left of the trace. `none` when the trace does not answer the calls. -/
def waitWhile (level : Bool) (sampleStartTime stored : ℚ) :
    List Observation → Option (ℚ × List Observation)
  | .poll found _ :: trace =>
      if found = level then
        match trace with
        | .time .test now :: trace =>
            if now - sampleStartTime < leaveSampleInterval then
              match trace with
              | .time .store now :: trace => waitWhile level sampleStartTime now trace
              | _ => none
            else some (stored, trace)
        | _ => none
      else some (stored, trace)
  | _ => none

theorem waitWhile_left {found level : Bool} (other : found ≠ level)
    (sampleStartTime stored instant : ℚ) (rest : List Observation) :
    waitWhile level sampleStartTime stored (.poll found instant :: rest) = some (stored, rest) := by
  unfold waitWhile
  simp only [if_neg other]

theorem waitWhile_deadline {sampleStartTime now : ℚ}
    (late : ¬ now - sampleStartTime < leaveSampleInterval) (level : Bool) (stored instant : ℚ)
    (rest : List Observation) :
    waitWhile level sampleStartTime stored (.poll level instant :: .time .test now :: rest) =
      some (stored, rest) := by
  unfold waitWhile
  simp only [if_pos, if_neg late]

theorem waitWhile_round {sampleStartTime now : ℚ}
    (early : now - sampleStartTime < leaveSampleInterval) (level : Bool)
    (stored stored' instant : ℚ) (rest : List Observation) :
    waitWhile level sampleStartTime stored
        (.poll level instant :: .time .test now :: .time .store stored' :: rest) =
      waitWhile level sampleStartTime stored' rest := by
  rw [waitWhile]
  simp only [if_pos, early]

/-- One iteration over its trace: the distance it appends, if it appends one. -/
def sensorSample (trace : List Observation) : Option (Option ℚ) :=
  match trace with
  | .time .sampleStart sampleStartTime :: .time .store startTime :: trace =>
      match waitWhile false sampleStartTime startTime trace with
      | some (startTime, .time .check now :: trace) =>
          if now - sampleStartTime > leaveSampleInterval then
            if trace = [] then some none else none
          else
            match trace with
            | .time .store stopTime :: trace =>
                match waitWhile true sampleStartTime stopTime trace with
                | some (stopTime, [.time .check now]) =>
                    if now - sampleStartTime > leaveSampleInterval then some none
                    else some (some ((stopTime - startTime) * 34300 / 2))
                | _ => none
            | _ => none
      | _ => none
  | _ => none

/-! ### The loops -/

/-- What a loop went through from the value stored before it to the one after. -/
inductive Waited (level : Bool) (sampleStartTime : ℚ) : ℚ → List Observation → ℚ → Prop where
  /-- A poll found the other level. -/
  | left (stored instant : ℚ) :
      Waited level sampleStartTime stored [.poll (!level) instant] stored
  /-- The deadline has passed. -/
  | deadline (stored instant : ℚ) {now : ℚ}
      (late : ¬ now - sampleStartTime < leaveSampleInterval) :
      Waited level sampleStartTime stored [.poll level instant, .time .test now] stored
  | round (stored instant : ℚ) {now stored' last : ℚ} {trace : List Observation}
      (early : now - sampleStartTime < leaveSampleInterval)
      (rest : Waited level sampleStartTime stored' trace last) :
      Waited level sampleStartTime stored
        (.poll level instant :: .time .test now :: .time .store stored' :: trace) last

theorem waited_of_waitWhile {level : Bool} {sampleStartTime stored last : ℚ}
    {trace rest : List Observation}
    (h : waitWhile level sampleStartTime stored trace = some (last, rest)) :
    ∃ used, trace = used ++ rest ∧ Waited level sampleStartTime stored used last := by
  fun_induction waitWhile level sampleStartTime stored trace with
  | case1 stored instant now early stored' trace ih =>
      obtain ⟨used, rfl, waited⟩ := ih h
      exact ⟨_, rfl, .round stored instant early waited⟩
  | case3 stored instant now trace late =>
      cases h
      exact ⟨_, rfl, .deadline _ instant late⟩
  | case5 stored found instant trace other =>
      cases h
      refine ⟨[.poll found instant], rfl, ?_⟩
      rw [Bool.eq_not_of_ne other]
      exact .left _ instant
  | case2 => cases h
  | case4 => cases h
  | case6 => cases h

/-- A loop that the echo ended: its last poll, and only that one, found the other
level, with the deadline still ahead at every test. -/
structure EchoEnds (level : Bool) (sampleStartTime : ℚ) (used : List Observation)
    (body : List (Bool × ℚ)) (instant : ℚ) : Prop where
  shape : polls used = body ++ [(!level, instant)]
  same : ∀ p ∈ body, p.1 = level
  tests : ∀ now, .time .test now ∈ used → now < sampleStartTime + leaveSampleInterval

/-- A loop that the deadline ended: no poll found the other level, and a test
found the deadline passed. -/
structure DeadlineEnds (level : Bool) (sampleStartTime : ℚ) (used : List Observation) : Prop where
  same : ∀ p ∈ polls used, p.1 = level
  late : ∃ now, .time .test now ∈ used ∧ sampleStartTime + leaveSampleInterval ≤ now

theorem EchoEnds.round {level : Bool} {sampleStartTime instant final now stored : ℚ}
    {used : List Observation} {body : List (Bool × ℚ)}
    (h : EchoEnds level sampleStartTime used body final)
    (early : now - sampleStartTime < leaveSampleInterval) :
    EchoEnds level sampleStartTime
      (.poll level instant :: .time .test now :: .time .store stored :: used)
      ((level, instant) :: body) final := by
  refine ⟨by simp [h.shape], by simpa using h.same, ?_⟩
  intro test mem
  simp only [List.mem_cons, Observation.time.injEq, reduceCtorEq, true_and, false_and,
    false_or] at mem
  rcases mem with rfl | mem
  · linarith
  · exact h.tests test mem

theorem DeadlineEnds.round {level : Bool} {sampleStartTime instant now stored : ℚ}
    {used : List Observation} (h : DeadlineEnds level sampleStartTime used) :
    DeadlineEnds level sampleStartTime
      (.poll level instant :: .time .test now :: .time .store stored :: used) := by
  obtain ⟨last, mem, late⟩ := h.late
  exact ⟨by simpa using h.same, last, by simp [mem], late⟩

/-- One of the two ended the loop. -/
theorem Waited.exit {level : Bool} {sampleStartTime stored last : ℚ} {used : List Observation}
    (h : Waited level sampleStartTime stored used last) :
    (∃ body instant, EchoEnds level sampleStartTime used body instant) ∨
      DeadlineEnds level sampleStartTime used := by
  induction h with
  | left stored instant => exact Or.inl ⟨[], instant, rfl, by simp, by simp⟩
  | @deadline stored instant now late => exact Or.inr ⟨by simp, now, by simp, by linarith⟩
  | round stored instant early rest ih =>
      rcases ih with ⟨body, final, ends⟩ | ends
      · exact Or.inl ⟨_, final, ends.round early⟩
      · exact Or.inr ends.round

/-! ### A recorded sample -/

/-- The trace of an iteration that appends a distance. -/
inductive Sampled : List Observation → ℚ → Prop where
  | mk {sampleStartTime start startTime check₁ stop stopTime check₂ : ℚ}
      {used₁ used₂ : List Observation}
      (echoStart : Waited false sampleStartTime start used₁ startTime)
      (inTime₁ : check₁ ≤ sampleStartTime + leaveSampleInterval)
      (echoStop : Waited true sampleStartTime stop used₂ stopTime)
      (inTime₂ : check₂ ≤ sampleStartTime + leaveSampleInterval) :
      Sampled (.time .sampleStart sampleStartTime :: .time .store start ::
          (used₁ ++ .time .check check₁ :: .time .store stop :: (used₂ ++ [.time .check check₂])))
        ((stopTime - startTime) * 34300 / 2)

theorem sampled_of_sensorSample {trace : List Observation} {distance : ℚ}
    (h : sensorSample trace = some (some distance)) : Sampled trace distance := by
  unfold sensorSample at h
  split at h
  · split at h
    · rename_i sampleStartTime start trace _ startTime check₁ rest₁ loop₁
      split at h
      · split at h <;> simp at h
      · rename_i inTime₁
        split at h
        · split at h
          · rename_i stop rest₂ _ stopTime check₂ loop₂
            split at h
            · simp at h
            · rename_i inTime₂
              obtain ⟨used₁, rfl, echoStart⟩ := waited_of_waitWhile loop₁
              obtain ⟨used₂, rfl, echoStop⟩ := waited_of_waitWhile loop₂
              simp only [Option.some.injEq] at h
              subst h
              exact .mk echoStart (by linarith) echoStop (by linarith)
          · cases h
        · cases h
    · cases h
  · cases h

/-! ### Echoes of the sample -/

/-- `SampleStartTime + LEAVE_SAMPLE_INTERVAL`. -/
def deadline : List Observation → ℚ
  | .time .sampleStart sampleStartTime :: _ => sampleStartTime + leaveSampleInterval
  | _ => 0

/-- The polls saw low, then high, and then low again before the deadline. -/
def OwnEcho (trace : List Observation) : Prop :=
  ∃ a b instant, polls trace = a ++ (true, instant) :: b ∧ (∃ p ∈ a, p.1 = false) ∧
    ∃ p ∈ b, p.1 = false ∧ p.2 < deadline trace

/-- The first poll finds the echo low, and neither the clock in a loop's
condition nor the last poll falls exactly on the deadline. -/
structure ClearCut (trace : List Observation) : Prop where
  lowFirst : ∃ instant, (polls trace).head? = some (false, instant)
  noTie : ∀ now, .time .test now ∈ trace → now ≠ deadline trace
  lastPoll : ∀ p ∈ (polls trace).getLast?, p.2 ≠ deadline trace

/-- Where only the last of the first polls can be high, everything after a high
poll is among the others. -/
theorem suffix_of_high {first second a b : List (Bool × ℚ)} {instant : ℚ}
    (low : ∀ p ∈ first.dropLast, p.1 = false)
    (split : first ++ second = a ++ (true, instant) :: b) : b <:+ second := by
  rcases List.append_eq_append_iff.mp split with ⟨c, rfl, rfl⟩ | ⟨c, rfl, rest⟩
  · exact ⟨c ++ [(true, instant)], by simp⟩
  · cases c with
    | nil => exact ⟨[(true, instant)], rest⟩
    | cons p c =>
        rw [List.cons_append, List.cons.injEq] at rest
        obtain ⟨rfl, rfl⟩ := rest
        cases c with
        | nil => exact List.suffix_rfl
        | cons q c =>
            rw [List.dropLast_append_of_ne_nil (by simp), List.dropLast_cons_of_ne_nil (by simp)]
              at low
            have high := low (true, instant) (by simp)
            cases high

/-- What comes before an entry is no part of the last one. -/
theorem mem_of_mem_before {body a b : List (Bool × ℚ)} {p q r : Bool × ℚ}
    (split : body ++ [p] = a ++ q :: b) (mem : r ∈ a) : r ∈ body := by
  have front : body = a ++ (q :: b).dropLast := by
    have drop := congrArg List.dropLast split
    rwa [List.dropLast_concat, List.dropLast_append_of_ne_nil (by simp)] at drop
  rw [front]
  exact List.mem_append_left _ mem

section Recorded

variable {s start startTime check₁ stop stopTime check₂ : ℚ} {used₁ used₂ : List Observation}

/-- The trace of a recorded sample, from what its loops went through. -/
def recorded (s start check₁ stop check₂ : ℚ) (used₁ used₂ : List Observation) :
    List Observation :=
  .time .sampleStart s :: .time .store start ::
    (used₁ ++ .time .check check₁ :: .time .store stop :: (used₂ ++ [.time .check check₂]))

theorem polls_recorded :
    polls (recorded s start check₁ stop check₂ used₁ used₂) = polls used₁ ++ polls used₂ := by
  simp [recorded]

theorem test_mem_recorded {now : ℚ} :
    .time .test now ∈ recorded s start check₁ stop check₂ used₁ used₂ ↔
      .time .test now ∈ used₁ ∨ .time .test now ∈ used₂ := by
  simp [recorded]

/-- The clock bounds what the loops observed by the checks. -/
theorem bounds_recorded
    (monotone : ((recorded s start check₁ stop check₂ used₁ used₂).map
      Observation.instant).Pairwise (· ≤ ·)) :
    (∀ o ∈ used₁, o.instant ≤ check₁) ∧ ∀ o ∈ used₂, check₁ ≤ o.instant ∧ o.instant ≤ check₂ := by
  simp only [recorded, List.map_cons, List.map_append, List.map_nil, List.pairwise_cons,
    List.pairwise_append, List.mem_append, List.mem_cons, List.mem_map] at monotone
  obtain ⟨-, -, -, ⟨after₁, -, -, -, last⟩, before₁⟩ := monotone
  refine ⟨fun o mem => before₁ _ ⟨o, mem, rfl⟩ _ (Or.inl rfl), fun o mem => ⟨?_, ?_⟩⟩
  · exact after₁ _ (Or.inr (Or.inl ⟨o, mem, rfl⟩))
  · exact last _ ⟨o, mem, rfl⟩ _ (Or.inl rfl)

variable (echoStart : Waited false s start used₁ startTime)
  (echoStop : Waited true s stop used₂ stopTime)
  (monotone : ((recorded s start check₁ stop check₂ used₁ used₂).map
    Observation.instant).Pairwise (· ≤ ·))

include echoStart echoStop monotone

/-- A sample that saw its own echo: the echo ended both loops, the first one not
at once and the second one in time, or the last low poll would be a high one or
too late. -/
theorem echoEnds_of_ownEcho
    (own : OwnEcho (recorded s start check₁ stop check₂ used₁ used₂)) :
    ∃ first body₁ rise body₂ fall, EchoEnds false s used₁ (first :: body₁) rise ∧
      EchoEnds true s used₂ body₂ fall ∧ fall < s + leaveSampleInterval := by
  obtain ⟨bounds₁, bounds₂⟩ := bounds_recorded monotone
  obtain ⟨a, b, high, split, ⟨p, before, lowBefore⟩, ⟨q, after, lowAfter, inTime⟩⟩ := own
  rw [polls_recorded] at split
  rcases echoStart.exit with ⟨body₁, rise, ends₁⟩ | ends₁
  · have inside : q ∈ polls used₂ :=
      (suffix_of_high (by simpa [ends₁.shape] using ends₁.same) split).subset after
    rcases echoStop.exit with ⟨body₂, fall, ends₂⟩ | ends₂
    · cases body₁ with
      | nil =>
          rw [ends₁.shape, ends₂.shape, List.nil_append, List.singleton_append,
            ← List.cons_append] at split
          rcases List.mem_cons.mp (mem_of_mem_before split before) with rfl | inside
          · cases lowBefore
          · rw [ends₂.same p inside] at lowBefore
            cases lowBefore
      | cons first body₁ =>
          refine ⟨first, body₁, rise, body₂, fall, ends₁, ends₂, ?_⟩
          rw [ends₂.shape, List.mem_append, List.mem_singleton] at inside
          rcases inside with inside | rfl
          · rw [ends₂.same q inside] at lowAfter
            cases lowAfter
          · exact inTime
    · rw [ends₂.same q inside] at lowAfter
      cases lowAfter
  · obtain ⟨now, test, late⟩ := ends₁.late
    have low : ∀ r ∈ (polls used₁).dropLast, r.1 = false :=
      fun r mem => ends₁.same r (List.dropLast_subset _ mem)
    have inside := (suffix_of_high low split).subset after
    have tooLate := (bounds₂ _ (mem_polls.mp inside)).1
    have passed := bounds₁ _ test
    change q.2 < s + leaveSampleInterval at inTime
    simp only [Observation.instant] at tooLate passed
    linarith

/-- So its first poll was low, and nothing fell on the deadline. -/
theorem clearCut_of_ownEcho
    (own : OwnEcho (recorded s start check₁ stop check₂ used₁ used₂)) :
    ClearCut (recorded s start check₁ stop check₂ used₁ used₂) := by
  obtain ⟨first, body₁, rise, body₂, fall, ends₁, ends₂, inTime⟩ :=
    echoEnds_of_ownEcho echoStart echoStop monotone own
  refine ⟨?_, ?_, ?_⟩
  · rw [polls_recorded, ends₁.shape]
    exact ⟨first.2, congrArg some (Prod.ext (ends₁.same first List.mem_cons_self) rfl)⟩
  · intro now mem
    rcases test_mem_recorded.mp mem with mem | mem
    · exact (ends₁.tests now mem).ne
    · exact (ends₂.tests now mem).ne
  · intro r mem
    rw [polls_recorded, ends₂.shape, ← List.append_assoc, List.getLast?_concat,
      Option.mem_some_iff] at mem
    rw [← mem]
    exact inTime.ne

/-- With a low first poll and no tie at the deadline, neither loop was left
because of the deadline. -/
theorem ownEcho_of_clearCut (inTime₁ : check₁ ≤ s + leaveSampleInterval)
    (inTime₂ : check₂ ≤ s + leaveSampleInterval)
    (clear : ClearCut (recorded s start check₁ stop check₂ used₁ used₂)) :
    OwnEcho (recorded s start check₁ stop check₂ used₁ used₂) := by
  obtain ⟨bounds₁, bounds₂⟩ := bounds_recorded monotone
  obtain ⟨⟨dip, lowFirst⟩, noTie, lastPoll⟩ := clear
  rcases echoStart.exit with ⟨body₁, rise, shape₁, same₁, -⟩ | ⟨-, now, test, late⟩
  · rcases echoStop.exit with ⟨body₂, fall, shape₂, -, -⟩ | ⟨-, now, test, late⟩
    · have falls : .poll false fall ∈ used₂ := mem_polls.mp (by simp [shape₂])
      have inTime := (bounds₂ _ falls).2
      have tie : fall ≠ s + leaveSampleInterval := by
        refine lastPoll (false, fall) ?_
        rw [polls_recorded, shape₂, ← List.append_assoc, List.getLast?_concat]
        rfl
      refine ⟨body₁, body₂ ++ [(false, fall)], rise, ?_, ?_, (false, fall), by simp, rfl, ?_⟩
      · rw [polls_recorded, shape₁, shape₂, List.append_assoc]
        rfl
      · cases body₁ with
        | nil =>
            rw [polls_recorded, shape₁] at lowFirst
            cases lowFirst
        | cons first body₁ => exact ⟨first, List.mem_cons_self, same₁ first List.mem_cons_self⟩
      · exact lt_of_le_of_ne (inTime.trans inTime₂) tie
    · have passed := (bounds₂ _ test).2
      simp only [Observation.instant] at passed
      exact absurd (le_antisymm (passed.trans inTime₂) late)
        (noTie now (test_mem_recorded.mpr (Or.inr test)))
  · have passed := bounds₁ _ test
    simp only [Observation.instant] at passed
    exact absurd (le_antisymm (passed.trans inTime₁) late)
      (noTie now (test_mem_recorded.mpr (Or.inl test)))

end Recorded

/-- Over any number of iterations on one clock: every distance appended comes from
an echo of its own sample exactly when every iteration that appends one is clear cut. -/
theorem own_echo_iff (samples : List (List Observation))
    (monotone : (samples.flatten.map Observation.instant).Pairwise (· ≤ ·)) :
    (∀ trace ∈ samples, ∀ distance, sensorSample trace = some (some distance) → OwnEcho trace) ↔
      ∀ trace ∈ samples, ∀ distance, sensorSample trace = some (some distance) →
        ClearCut trace := by
  have sorted : ∀ trace ∈ samples, (trace.map Observation.instant).Pairwise (· ≤ ·) :=
    fun trace mem => monotone.sublist ((List.sublist_flatten_of_mem mem).map _)
  constructor
  · intro own trace mem distance appends
    have echo := own trace mem distance appends
    cases sampled_of_sensorSample appends with
    | mk echoStart inTime₁ echoStop inTime₂ =>
        exact clearCut_of_ownEcho echoStart echoStop (sorted _ mem) echo
  · intro clear trace mem distance appends
    have cut := clear trace mem distance appends
    cases sampled_of_sensorSample appends with
    | mk echoStart inTime₁ echoStop inTime₂ =>
        exact ownEcho_of_clearCut echoStart echoStop (sorted _ mem) inTime₁ inTime₂ cut

/-- Low, high for a millisecond, low again. -/
def oneEcho : List Observation :=
  [.time .sampleStart 0, .time .store 0, .poll false 0, .time .test 0.001, .time .store 0.001,
    .poll true 0.002, .time .check 0.002, .time .store 0.002, .poll true 0.002,
    .time .test 0.003, .time .store 0.003, .poll false 0.004, .time .check 0.004]

/-- It is recorded, and from its own echo. -/
theorem own_echo_iff_one_echo :
    sensorSample oneEcho = some (some 34.3) ∧ OwnEcho oneEcho := by
  have appends : sensorSample oneEcho = some (some 34.3) := by decide +kernel
  have cut : ClearCut oneEcho := by
    refine ⟨⟨0, rfl⟩, ?_, ?_⟩
    · intro now mem
      simp only [oneEcho, List.mem_cons, Observation.time.injEq, reduceCtorEq, true_and, false_and,
        false_or, List.not_mem_nil, or_false] at mem
      rcases mem with rfl | rfl
      · decide +kernel
      · decide +kernel
    · intro p mem
      cases mem
      decide +kernel
  refine ⟨appends, (own_echo_iff [oneEcho] (by decide +kernel)).mpr ?_ oneEcho (by simp) _ appends⟩
  intro trace mem _ _
  rw [List.mem_singleton.mp mem]
  exact cut

/-- The echo of an abandoned sample is still high when this one begins. -/
def staleEcho : List Observation :=
  [.time .sampleStart 0, .time .store 0, .poll true 0, .time .check 0, .time .store 0,
    .poll true 0, .time .test 0.001, .time .store 0.001, .poll false 0.002, .time .check 0.002]

/-- Its tail is recorded as an obstacle at 17.15 cm. -/
theorem stale_echo_recorded :
    ¬ ∀ samples : List (List Observation),
      (samples.flatten.map Observation.instant).Pairwise (· ≤ ·) →
      ∀ trace ∈ samples, ∀ distance, sensorSample trace = some (some distance) →
        OwnEcho trace := by
  intro own
  obtain ⟨a, b, rise, split, ⟨p, before, low⟩, -⟩ :=
    own [staleEcho] (by decide +kernel) staleEcho (by simp) 17.15 (by decide +kernel)
  have seen : polls staleEcho = [(true, 0), (true, 0)] ++ [(false, 0.002)] := rfl
  have inside := mem_of_mem_before (seen.symm.trans split) before
  rcases List.mem_cons.mp inside with rfl | inside
  · cases low
  · rw [List.mem_singleton.mp inside] at low
    cases low

end Adas.Ecu
