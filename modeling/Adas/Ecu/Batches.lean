import Adas.Ecu.Threads

/-!
What an interleaving of the ECU's threads amounts to.

`Follows` is the relation between the threads and the loop over whole
iterations: which iterations are complete, what was taken in the current one, and
what the loop knows at each of its statements. What it knows about a list stays
true because the list's lock is taken meanwhile. `threads_refine` is the result:
every interleaving sends the messages of `getMedianDistancesThread` over batches
that partition what the sensors sampled, in order. That holds at every moment of the
run for the iterations behind it (`BatchedThroughout`), so the batch of an iteration
is what was taken from the lists between two messages, and nothing sampled later.
-/

namespace Adas.Ecu

open Lib

/-! ### What was sampled, and what was taken -/

/-- The distances sensor `k` sampled. -/
def samplesOf (k : SensorId) (as : List ThreadAction) : List ℚ :=
  as.filterMap fun
    | .sample k' distance => if k' = k then some distance else none
    | _ => none

/-- The values `current_speed` has had. -/
def Stored (as : List ThreadAction) (speed : ℚ) : Prop := speed = 0 ∨ .store speed ∈ as

/-- A distance that is not in the list yet. -/
def SensorPc.inFlight : SensorPc → List ℚ
  | .acquire distance | .append distance => [distance]
  | .sampling | .release => []

def CycleInput.batch (x : CycleInput) : SensorId → List ℚ
  | .sensor0 => x.sensor0Distances
  | .sensor1 => x.sensor1Distances

/-- Each test of the iteration read a value that `current_speed` had. -/
def TornInput.ReadFrom (x : TornInput) (as : List ThreadAction) : Prop :=
  Stored as x.currentSpeed ∧ Stored as x.currentSpeed2 ∧ Stored as x.currentSpeed3

/-- What the loop has behind it: the inputs of its completed iterations, the state
they left, and the batches taken in the current one. -/
structure Progress where
  done : List TornInput
  before : EcuState
  taken : SensorId → List ℚ

/-- The input of an iteration with the batches taken and three speeds read. -/
def Progress.input (p : Progress) (v₁ v₂ v₃ : ℚ) : TornInput :=
  ⟨⟨p.taken .sensor0, p.taken .sensor1, v₁⟩, v₂, v₃⟩

@[simp] theorem Progress.batch_input (p : Progress) (v₁ v₂ v₃ : ℚ) :
    (p.input v₁ v₂ v₃).toCycleInput.batch = p.taken := by
  funext k
  cases k <;> rfl

theorem TornInput.lessDistance_eq {x : TornInput} {p : Progress}
    (same : x.toCycleInput.batch = p.taken) :
    x.lessDistance =
      min (sensorMedian (p.taken .sensor0)) (sensorMedian (p.taken .sensor1)) := by
  rw [← same]
  rfl

/-- Both lists have been taken in the current iteration, or the first one. -/
def LoopPc.took : LoopPc → SensorId → Bool
  | .acquire k, k' | .len k, k' | .median k, k' | .clear k, k' | .missing k, k' =>
      k = .sensor1 && k' = .sensor0
  | .release k, k' => k = .sensor1 || k' = .sensor0
  | .ended (.statistics _), _ => false
  | _, _ => true

@[simp] theorem LoopPc.took_release_self (k : SensorId) : (LoopPc.release k).took k = true := by
  cases k <;> rfl

theorem LoopPc.took_release_of_ne {k k' : SensorId} (apart : k' ≠ k) :
    (LoopPc.release k).took k' = (LoopPc.clear k).took k' := by
  cases k <;> cases k' <;> first | rfl | exact absurd rfl apart

/-- What the loop knows about the list it is inside of. -/
def Threads.ListKnown (s : Threads) : Prop :=
  match s.pc with
  | .median k => 0 < (s.distances k).length
  | .clear k => s.median k = some (sensorMedian (s.distances k))
  | .missing k => s.distances k = []
  | .ended (.statistics _) => False
  | _ => True

/-- The distance is fused. -/
def LoopPc.Fused : LoopPc → Prop
  | .test1 | .test2 | .test3 | .decide => True
  | _ => False

/-- Where the decision of the current iteration is. -/
def Threads.Deciding (s : Threads) (as : List ThreadAction) (p : Progress) : Prop :=
  match s.pc with
  | .test2 => s.ecu = p.before ∧ ∃ v, Stored as v ∧ ¬ v < lessThanValueStage1
  | .test3 => s.ecu = p.before ∧ (∃ v, Stored as v ∧ ¬ v < lessThanValueStage1) ∧
      ∃ v, Stored as v ∧ ¬ v < lessThanValueStage2
  | .decide => ∃ x : TornInput, x.toCycleInput.batch = p.taken ∧ x.ReadFrom as ∧
      s.ecu = p.before.setTornLimits x
  | .send => ∃ (x : TornInput) (d : Decision), x.toCycleInput.batch = p.taken ∧ x.ReadFrom as ∧
      (p.before.setTornLimits x).decide x.lessDistance = .ok d ∧
      s.ecu = (p.before.setTornLimits x).apply d
  | .ended (.python e) => ∃ x : TornInput, x.toCycleInput.batch = p.taken ∧ x.ReadFrom as ∧
      tornCycle p.before x = .error e
  | _ => s.ecu = p.before

/-- How far a run has come, and what its samples have become. -/
structure Follows (as : List ThreadAction) (s : Threads) (p : Progress) : Prop where
  done : runOut tornCycle EcuState.init p.done = .ok (p.before, s.sent)
  samples : ∀ k, Accounted (samplesOf k as) (p.done.map fun x => x.toCycleInput.batch k)
    (p.taken k ++ (s.distances k ++ (s.sensor k).inFlight))
  speeds : ∀ x ∈ p.done, x.ReadFrom as
  current : Stored as s.currentSpeed
  took : ∀ k, s.pc.took k = true → s.median k = some (sensorMedian (p.taken k))
  untaken : ∀ k, s.pc.took k = false → p.taken k = []
  list : s.ListKnown
  fused : s.pc.Fused →
    s.lessDistance = min (sensorMedian (p.taken .sensor0)) (sensorMedian (p.taken .sensor1))
  deciding : s.Deciding as p

theorem follows_init : Follows [] Threads.init ⟨[], EcuState.init, fun _ => []⟩ where
  done := rfl
  samples _ := accounted_nil
  speeds _ mem := absurd mem List.not_mem_nil
  current := Or.inl rfl
  took k took := by cases k <;> cases took
  untaken _ _ := rfl
  list := trivial
  fused h := h.elim
  deciding := rfl

/-! ### More actions -/

theorem Stored.mono {as : List ThreadAction} {speed : ℚ} (h : Stored as speed)
    (bs : List ThreadAction) : Stored (as ++ bs) speed :=
  h.imp_right fun mem => List.mem_append_left bs mem

theorem TornInput.ReadFrom.mono {x : TornInput} {as : List ThreadAction} (h : x.ReadFrom as)
    (bs : List ThreadAction) : x.ReadFrom (as ++ bs) :=
  ⟨h.1.mono bs, h.2.1.mono bs, h.2.2.mono bs⟩

theorem Threads.Deciding.mono {s : Threads} {as : List ThreadAction} {p : Progress}
    (h : s.Deciding as p) (bs : List ThreadAction) : s.Deciding (as ++ bs) p := by
  unfold Deciding at h ⊢
  split at h
  · exact ⟨h.1, h.2.imp fun v stored => ⟨stored.1.mono bs, stored.2⟩⟩
  · exact ⟨h.1, h.2.1.imp fun v stored => ⟨stored.1.mono bs, stored.2⟩,
      h.2.2.imp fun v stored => ⟨stored.1.mono bs, stored.2⟩⟩
  · exact h.imp fun x known => ⟨known.1, known.2.1.mono bs, known.2.2⟩
  · exact h.imp fun x => .imp fun d known => ⟨known.1, known.2.1.mono bs, known.2.2⟩
  · exact h.imp fun x known => ⟨known.1, known.2.1.mono bs, known.2.2⟩
  · exact h

theorem samplesOf_sample (k k' : SensorId) (as : List ThreadAction) (distance : ℚ) :
    samplesOf k (as ++ [.sample k' distance]) =
      samplesOf k as ++ if k' = k then [distance] else [] := by
  by_cases same : k' = k
  · simp [samplesOf, same]
  · simp [samplesOf, same]

theorem samplesOf_other {k : SensorId} {as : List ThreadAction} {a : ThreadAction}
    (other : ∀ distance, a ≠ .sample k distance) : samplesOf k (as ++ [a]) = samplesOf k as := by
  cases a with
  | sample k' distance =>
      rw [samplesOf_sample, if_neg fun same => other distance (by rw [same]), List.append_nil]
  | sensor k => simp [samplesOf]
  | store speed => simp [samplesOf]
  | loop => simp [samplesOf]

/-- A new sample is in flight. -/
theorem Follows.sample {as : List ThreadAction} {s : Threads} {p : Progress} (h : Follows as s p)
    {k : SensorId} (distance : ℚ) (idle : s.sensor k = .sampling) :
    Follows (as ++ [.sample k distance])
      { s with sensor := Function.update s.sensor k (.acquire distance) } p where
  done := h.done
  samples k' := by
    rw [samplesOf_sample]
    by_cases same : k' = k
    · subst same
      have account := (h.samples k').append distance
      simpa [idle, SensorPc.inFlight] using account
    · simpa [same, Ne.symm same] using h.samples k'
  speeds x mem := (h.speeds x mem).mono _
  current := h.current.mono _
  took := h.took
  untaken := h.untaken
  list := h.list
  fused := h.fused
  deciding := h.deciding.mono _

theorem Follows.store {as : List ThreadAction} {s : Threads} {p : Progress} (h : Follows as s p)
    (speed : ℚ) : Follows (as ++ [.store speed]) { s with currentSpeed := speed } p where
  done := h.done
  samples k := by
    rw [samplesOf_other (by simp)]
    exact h.samples k
  speeds x mem := (h.speeds x mem).mono _
  current := Or.inr (by simp)
  took := h.took
  untaken := h.untaken
  list := h.list
  fused := h.fused
  deciding := h.deciding.mono _

/-- What the loop knows about a list survives a change of the others. -/
theorem Threads.ListKnown.of_same {s s' : Threads} (h : s.ListKnown) (pc : s'.pc = s.pc)
    (median : s'.median = s.median)
    (kept : ∀ k, s.pc.inside k = true → s'.distances k = s.distances k) : s'.ListKnown := by
  unfold ListKnown at h ⊢
  rw [pc, median]
  cases here : s.pc with
  | median k =>
      rw [here] at h
      simp only [kept k (by simp [here, LoopPc.inside])]
      exact h
  | clear k =>
      rw [here] at h
      simp only [kept k (by simp [here, LoopPc.inside])]
      exact h
  | missing k =>
      rw [here] at h
      simp only [kept k (by simp [here, LoopPc.inside])]
      exact h
  | ended e =>
      rw [here] at h
      cases e <;> exact h
  | _ => trivial

/-- The statements of a sensor thread move its distance into the list, which the
loop is not inside of at that moment. -/
theorem Follows.sensor {as : List ThreadAction} {s s' : Threads} {p : Progress}
    (h : Follows as s p) (locking : Locking s) {k : SensorId}
    (stepped : s.sensorStep k = some s') : Follows (as ++ [.sensor k]) s' p := by
  have speeds : ∀ x ∈ p.done, x.ReadFrom (as ++ [.sensor k]) :=
    fun x mem => (h.speeds x mem).mono _
  -- It takes no sample, so the account stays if nothing is lost on the way.
  have account (distances : SensorId → List ℚ) (sensor : SensorId → SensorPc)
      (here : distances k ++ (sensor k).inFlight = s.distances k ++ (s.sensor k).inFlight)
      (other : ∀ k' ≠ k, distances k' = s.distances k' ∧ sensor k' = s.sensor k')
      (k' : SensorId) : Accounted (samplesOf k' (as ++ [.sensor k]))
        (p.done.map fun x => x.toCycleInput.batch k')
        (p.taken k' ++ (distances k' ++ (sensor k').inFlight)) := by
    rw [samplesOf_other (by simp)]
    by_cases same : k' = k
    · rw [same, here]
      exact h.samples k
    · rw [(other k' same).1, (other k' same).2]
      exact h.samples k'
  rcases Threads.sensorStep_cases stepped with ⟨d, pc, free, rfl⟩ | ⟨d, pc, rfl⟩ | ⟨pc, rfl⟩
  · refine ⟨h.done, account _ _ ?_ ?_, speeds, h.current.mono _, h.took, h.untaken, h.list,
      h.fused, h.deciding.mono _⟩
    · simp [pc, SensorPc.inFlight]
    · exact fun k' apart => ⟨rfl, Function.update_of_ne apart _ _⟩
  · refine ⟨h.done, account _ _ ?_ ?_, speeds, h.current.mono _, h.took, h.untaken, ?_,
      h.fused, h.deciding.mono _⟩
    · simp [pc, SensorPc.inFlight]
    · exact fun k' apart => ⟨Function.update_of_ne apart _ _, Function.update_of_ne apart _ _⟩
    · refine h.list.of_same rfl rfl fun k' inside => ?_
      have apart : k' ≠ k := fun here => by
        have alone := (locking k).alone (by rw [pc]; rfl)
        rw [here, alone] at inside
        cases inside
      exact Function.update_of_ne apart _ _
  · refine ⟨h.done, account _ _ ?_ ?_, speeds, h.current.mono _, h.took, h.untaken, h.list,
      h.fused, h.deciding.mono _⟩
    · simp [pc, SensorPc.inFlight]
    · exact fun k' apart => ⟨rfl, Function.update_of_ne apart _ _⟩

/-! ### The loop -/

section Loop

variable {as : List ThreadAction} {s s' : Threads} {p : Progress} (h : Follows as s p)

include h

theorem Follows.samples_loop (k : SensorId) : Accounted (samplesOf k (as ++ [.loop]))
    (p.done.map fun x => x.toCycleInput.batch k)
    (p.taken k ++ (s.distances k ++ (s.sensor k).inFlight)) := by
  rw [samplesOf_other (by simp)]
  exact h.samples k

theorem Follows.speeds_loop : ∀ x ∈ p.done, x.ReadFrom (as ++ [.loop]) :=
  fun x mem => (h.speeds x mem).mono _

/-- A statement that only moves the loop on. -/
theorem Follows.goto {pc' : LoopPc} {locked' : SensorId → Bool}
    (took : pc'.took = s.pc.took)
    (list : ({ s with locked := locked', pc := pc' } : Threads).ListKnown)
    (fused : pc'.Fused → s.pc.Fused)
    (deciding : ({ s with locked := locked', pc := pc' } : Threads).Deciding (as ++ [.loop]) p) :
    Follows (as ++ [.loop]) { s with locked := locked', pc := pc' } p where
  done := h.done
  samples := h.samples_loop
  speeds := h.speeds_loop
  current := h.current.mono _
  took k taken := h.took k (took ▸ taken)
  untaken k left := h.untaken k (took ▸ left)
  list := list
  fused here := h.fused (fused here)
  deciding := deciding

/-- The list of a sensor becomes its batch. -/
theorem Follows.clear {k : SensorId} (pc : s.pc = .clear k) :
    Follows (as ++ [.loop]) { s with distances := Function.update s.distances k [],
                                     pc := .release k }
      { p with taken := Function.update p.taken k (s.distances k) } := by
  have open' : p.taken k = [] := h.untaken k (by rw [pc]; cases k <;> rfl)
  have known : s.median k = some (sensorMedian (s.distances k)) := by
    simpa [Threads.ListKnown, pc] using h.list
  refine ⟨h.done, fun k' => ?_, h.speeds_loop, h.current.mono _, fun k' taken => ?_,
    fun k' left => ?_, trivial, nofun, ?_⟩
  · have account := h.samples_loop k'
    by_cases here : k' = k
    · subst here
      simpa [open'] using account
    · simpa [here] using account
  · by_cases here : k' = k
    · subst here
      simpa using known
    · simp only [Function.update_of_ne here]
      rw [LoopPc.took_release_of_ne here] at taken
      exact h.took k' (by rw [pc]; exact taken)
  · have apart : k' ≠ k := by
      rintro rfl
      simp at left
    simp only [Function.update_of_ne apart]
    rw [LoopPc.took_release_of_ne apart] at left
    exact h.untaken k' (by rw [pc]; exact left)
  · simpa [Threads.Deciding, pc] using h.deciding

/-- An empty list counts as the empty batch. -/
theorem Follows.missing {k : SensorId} (pc : s.pc = .missing k) :
    Follows (as ++ [.loop]) { s with median := Function.update s.median k (some 123.44),
                                     pc := .release k } p := by
  have open' : p.taken k = [] := h.untaken k (by rw [pc]; cases k <;> rfl)
  refine ⟨h.done, h.samples_loop, h.speeds_loop, h.current.mono _, fun k' taken => ?_,
    fun k' left => ?_, trivial, nofun, ?_⟩
  · by_cases here : k' = k
    · subst here
      simp [open', sensorMedian]
    · simp only [Function.update_of_ne here]
      rw [LoopPc.took_release_of_ne here] at taken
      exact h.took k' (by rw [pc]; exact taken)
  · have apart : k' ≠ k := by
      rintro rfl
      simp at left
    rw [LoopPc.took_release_of_ne apart] at left
    exact h.untaken k' (by rw [pc]; exact left)
  · simpa [Threads.Deciding, pc] using h.deciding

/-- The median is the one of the list as it is. -/
theorem Follows.median {k : SensorId} (pc : s.pc = .median k)
    (nonempty : 0 < (s.distances k).length) :
    Follows (as ++ [.loop]) { s with
      median := Function.update s.median k (some (Ecu.median (s.distances k) nonempty))
      pc := .clear k } p := by
  refine ⟨h.done, h.samples_loop, h.speeds_loop, h.current.mono _, fun k' taken => ?_,
    fun k' left => h.untaken k' (by rw [pc]; exact left), ?_, nofun, ?_⟩
  · have apart : k' ≠ k := by
      rintro rfl
      cases k' <;> cases taken
    simp only [Function.update_of_ne apart]
    exact h.took k' (by rw [pc]; exact taken)
  · simp [Threads.ListKnown, sensorMedian, nonempty]
  · simpa [Threads.Deciding, pc] using h.deciding

/-- The batch of the current iteration, once both lists are taken. -/
theorem Follows.taken_median (taken : ∀ k, s.pc.took k = true) {median0 median1 : ℚ}
    (bound0 : s.median .sensor0 = some median0) (bound1 : s.median .sensor1 = some median1) :
    min median0 median1 =
      min (sensorMedian (p.taken .sensor0)) (sensorMedian (p.taken .sensor1)) := by
  rw [h.took .sensor0 (taken _)] at bound0
  rw [h.took .sensor1 (taken _)] at bound1
  rw [← Option.some.inj bound0, ← Option.some.inj bound1]

theorem Follows.fuse (pc : s.pc = .fuse) {median0 median1 : ℚ}
    (bound0 : s.median .sensor0 = some median0) (bound1 : s.median .sensor1 = some median1) :
    Follows (as ++ [.loop]) { s with lessDistance := min median0 median1, pc := .test1 } p := by
  have taken k : s.pc.took k = true := by rw [pc]; rfl
  refine ⟨h.done, h.samples_loop, h.speeds_loop, h.current.mono _, fun k _ => h.took k (taken k),
    fun k left => absurd left (by simp [LoopPc.took]), trivial,
    fun _ => h.taken_median taken bound0 bound1, ?_⟩
  simpa [Threads.Deciding, pc] using h.deciding

/-- The three tests bind the limits that the chain binds. -/
theorem Follows.limits {pc' : LoopPc} {ecu' : EcuState} (moved : pc' = .decide)
    (taken : ∀ k, s.pc.took k = true) (fused : s.pc.Fused)
    (chain : ∃ v₁ v₂ v₃, Stored as v₁ ∧ Stored as v₂ ∧ Stored as v₃ ∧
      ecu' = p.before.setTornLimits (p.input v₁ v₂ v₃)) :
    Follows (as ++ [.loop]) { s with ecu := ecu', pc := pc' } p := by
  obtain ⟨v₁, v₂, v₃, read₁, read₂, read₃, rfl⟩ := chain
  subst moved
  exact ⟨h.done, h.samples_loop, h.speeds_loop, h.current.mono _, fun k _ => h.took k (taken k),
    fun k left => absurd left (by simp [LoopPc.took]), trivial, fun _ => h.fused fused,
    p.input v₁ v₂ v₃, p.batch_input _ _ _, ⟨read₁.mono _, read₂.mono _, read₃.mono _⟩, rfl⟩

/-- The decision is the one of the whole iteration, or raises as it does. -/
theorem Follows.decide (pc : s.pc = .decide) :
    (∀ d, s.ecu.decide s.lessDistance = .ok d →
      Follows (as ++ [.loop]) { s with ecu := s.ecu.apply d, pc := .send } p) ∧
    (∀ e, s.ecu.decide s.lessDistance = .error e →
      Follows (as ++ [.loop]) { s with pc := .ended (.python e) } p) := by
  obtain ⟨x, batch, read, ecu⟩ :
      ∃ x : TornInput, x.toCycleInput.batch = p.taken ∧ x.ReadFrom as ∧
        s.ecu = p.before.setTornLimits x := by
    simpa [Threads.Deciding, pc] using h.deciding
  have distance : s.lessDistance = x.lessDistance :=
    (h.fused (by rw [pc]; trivial)).trans (TornInput.lessDistance_eq batch).symm
  have taken k : s.pc.took k = true := by rw [pc]; rfl
  constructor
  · intro d decided
    rw [distance, ecu] at decided
    exact ⟨h.done, h.samples_loop, h.speeds_loop, h.current.mono _,
      fun k _ => h.took k (taken k), fun k left => absurd left (by simp [LoopPc.took]), trivial,
      nofun, x, d, batch, read.mono _, decided, by rw [ecu]⟩
  · intro e raised
    rw [distance, ecu] at raised
    refine ⟨h.done, h.samples_loop, h.speeds_loop, h.current.mono _,
      fun k _ => h.took k (taken k), fun k left => absurd left (by simp [LoopPc.took]), trivial,
      nofun, x, batch, read.mono _, ?_⟩
    simp [tornCycle, raised, bind, Except.bind]

/-- The message completes the iteration. -/
theorem Follows.send (pc : s.pc = .send) :
    ∃ p', p.done <+: p'.done ∧ Follows (as ++ [.loop])
      { s with
        sent := s.sent ++ [⟨s.ecu.currentState, s.ecu.i⟩]
        ecu := { s.ecu with i := nextIndex s.ecu.i }
        pc := .acquire .sensor0 } p' := by
  obtain ⟨x, d, batch, read, decided, ecu⟩ :
      ∃ (x : TornInput) (d : Decision), x.toCycleInput.batch = p.taken ∧ x.ReadFrom as ∧
        (p.before.setTornLimits x).decide x.lessDistance = .ok d ∧
        s.ecu = (p.before.setTornLimits x).apply d := by
    simpa [Threads.Deciding, pc] using h.deciding
  have iteration : tornCycle p.before x =
      .ok ({ s.ecu with i := nextIndex s.ecu.i }, ⟨s.ecu.currentState, s.ecu.i⟩) := by
    simp [tornCycle, decided, ecu, bind, Except.bind, pure, Except.pure]
  refine ⟨⟨p.done ++ [x], { s.ecu with i := nextIndex s.ecu.i }, fun _ => []⟩,
    List.prefix_append _ _, runOut_snoc_eq_ok.mpr ⟨_, _, _, h.done, iteration, rfl⟩,
    fun k => ?_, fun y mem => ?_, h.current.mono _, fun k taken => ?_, fun _ _ => rfl, trivial,
    fun fused => fused.elim, rfl⟩
  · have account := (h.samples_loop k).take
    simpa [batch] using account
  · rcases List.mem_append.mp mem with old | new
    · exact h.speeds_loop y old
    · rw [List.mem_singleton.mp new]
      exact read.mono _
  · cases k <;> cases taken

/-- What the first test found. -/
theorem Follows.passed1 (pc : s.pc = .test2) :
    s.ecu = p.before ∧ ∃ v, Stored as v ∧ ¬ v < lessThanValueStage1 := by
  simpa [Threads.Deciding, pc] using h.deciding

/-- What the first two tests found, each with a speed of its own. -/
theorem Follows.passed2 (pc : s.pc = .test3) :
    s.ecu = p.before ∧ (∃ v, Stored as v ∧ ¬ v < lessThanValueStage1) ∧
      ∃ v, Stored as v ∧ ¬ v < lessThanValueStage2 := by
  simpa [Threads.Deciding, pc] using h.deciding

/-- Every statement of the loop follows the loop over whole iterations. -/
theorem Follows.loop (stepped : LoopStep s s') :
    ∃ p', p.done <+: p'.done ∧ Follows (as ++ [.loop]) s' p' := by
  have same : s.Deciding (as ++ [.loop]) p := h.deciding.mono _
  have current := h.current
  have kept : p.done <+: p.done := List.prefix_rfl
  cases stepped with
  | acquire pc free =>
      refine ⟨p, kept, h.goto (by rw [pc]; rfl) trivial nofun ?_⟩
      simpa [Threads.Deciding, pc] using same
  | filled pc nonempty =>
      refine ⟨p, kept, h.goto (by rw [pc]; rfl) nonempty nofun ?_⟩
      simpa [Threads.Deciding, pc] using same
  | empty pc empty =>
      refine ⟨p, kept, h.goto (by rw [pc]; rfl) empty nofun ?_⟩
      simpa [Threads.Deciding, pc] using same
  | @median k pc nonempty => exact ⟨p, kept, h.median pc nonempty⟩
  | noData pc empty =>
      have nonempty := h.list
      rw [Threads.ListKnown, pc] at nonempty
      exact absurd nonempty empty
  | @clear k pc =>
      exact ⟨{ p with taken := Function.update p.taken k (s.distances k) }, kept, h.clear pc⟩
  | missing pc => exact ⟨p, kept, h.missing pc⟩
  | @release k pc =>
      refine ⟨p, kept, h.goto ?_ ?_ ?_ ?_⟩
      · rw [pc]
        cases k <;> funext k' <;> cases k' <;> rfl
      · cases k <;> trivial
      · cases k <;> exact nofun
      · cases k <;> simpa [Threads.Deciding, LoopPc.afterRelease, pc] using same
  | fuse pc bound0 bound1 => exact ⟨p, kept, h.fuse pc bound0 bound1⟩
  | @unfused k e pc unbound =>
      have bound := h.took k (by rw [pc]; rfl)
      rw [unbound] at bound
      cases bound
  | slow1 pc slow =>
      have before : s.ecu = p.before := by simpa [Threads.Deciding, pc] using same
      refine ⟨p, kept, h.limits rfl (fun k => by rw [pc]; rfl) (by rw [pc]; trivial)
        ⟨_, _, _, current, current, current, ?_⟩⟩
      rw [before]
      exact (if_pos slow).symm
  | fast1 pc fast =>
      refine ⟨p, kept, h.goto (by rw [pc]; rfl) trivial (fun _ => by rw [pc]; trivial) ?_⟩
      have before : s.ecu = p.before := by simpa [Threads.Deciding, pc] using same
      exact ⟨before, _, current.mono _, fast⟩
  | slow2 pc slow =>
      obtain ⟨before, v₁, read₁, fast₁⟩ := h.passed1 pc
      refine ⟨p, kept, h.limits rfl (fun k => by rw [pc]; rfl) (by rw [pc]; trivial)
        ⟨v₁, _, _, read₁, current, current, ?_⟩⟩
      rw [before]
      exact ((if_neg fast₁).trans (if_pos slow)).symm
  | fast2 pc fast =>
      obtain ⟨before, v₁, read₁, fast₁⟩ := h.passed1 pc
      refine ⟨p, kept, h.goto (by rw [pc]; rfl) trivial (fun _ => by rw [pc]; trivial) ?_⟩
      exact ⟨before, ⟨v₁, read₁.mono _, fast₁⟩, _, current.mono _, fast⟩
  | slow3 pc slow =>
      obtain ⟨before, ⟨v₁, read₁, fast₁⟩, v₂, read₂, fast₂⟩ := h.passed2 pc
      refine ⟨p, kept, h.limits rfl (fun k => by rw [pc]; rfl) (by rw [pc]; trivial)
        ⟨v₁, v₂, _, read₁, read₂, current, ?_⟩⟩
      rw [before]
      exact ((if_neg fast₁).trans ((if_neg fast₂).trans (if_pos slow))).symm
  | fast3 pc fast =>
      obtain ⟨before, ⟨v₁, read₁, fast₁⟩, v₂, read₂, fast₂⟩ := h.passed2 pc
      refine ⟨p, kept, h.limits rfl (fun k => by rw [pc]; rfl) (by rw [pc]; trivial)
        ⟨v₁, v₂, _, read₁, read₂, current, ?_⟩⟩
      rw [before]
      exact ((if_neg fast₁).trans ((if_neg fast₂).trans (if_neg fast))).symm
  | decide pc decided => exact ⟨p, kept, (h.decide pc).1 _ decided⟩
  | raise pc raised => exact ⟨p, kept, (h.decide pc).2 _ raised⟩
  | send pc => exact h.send pc

end Loop

/-! ### Runs -/

theorem Follows.step {as : List ThreadAction} {s s' : Threads} {p : Progress} {a : ThreadAction}
    (h : Follows as s p) (locking : Locking s) (stepped : s.step a = some s') :
    ∃ p', p.done <+: p'.done ∧ Follows (as ++ [a]) s' p' := by
  rcases Threads.step_cases stepped with
    ⟨k, distance, rfl, idle, rfl⟩ | ⟨k, rfl, sensor⟩ | ⟨speed, rfl, rfl⟩ | ⟨rfl, loop⟩
  · exact ⟨p, List.prefix_rfl, h.sample distance idle⟩
  · exact ⟨p, List.prefix_rfl, h.sensor locking sensor⟩
  · exact ⟨p, List.prefix_rfl, h.store speed⟩
  · exact h.loop (Threads.loopStep_cases loop)

/-- A run from a state that follows the loop goes on to follow it. -/
theorem Follows.steps {as bs : List ThreadAction} {s s' : Threads} {p : Progress}
    (h : Follows as s p) (locking : Locking s) (ran : run Threads.step s bs = some s') :
    ∃ p', p.done <+: p'.done ∧ Follows (as ++ bs) s' p' ∧ Locking s' := by
  induction bs generalizing as s p with
  | nil =>
      cases ran
      exact ⟨p, List.prefix_rfl, (List.append_nil as).symm ▸ h, locking⟩
  | cons a bs ih =>
      obtain ⟨m, stepped, rest⟩ := run_cons_eq_some.mp ran
      obtain ⟨p₁, first, follows₁⟩ := h.step locking stepped
      obtain ⟨p₂, later, follows₂, locking₂⟩ := ih follows₁ (locking.step stepped) rest
      rw [List.append_assoc] at follows₂
      exact ⟨p₂, first.trans later, follows₂, locking₂⟩

theorem follows_of_run {as : List ThreadAction} {s : Threads}
    (reached : run Threads.step Threads.init as = some s) : Locking s ∧ ∃ p, Follows as s p := by
  obtain ⟨p, -, follows, locking⟩ := follows_init.steps locking_init reached
  exact ⟨locking, p, follows⟩

/-! ### One speed an iteration -/

/-- The iteration with the value its last test read: every stage binds the same
limits, so the tests before it might as well have read it too. -/
def TornInput.settled (x : TornInput) : CycleInput :=
  { x.toCycleInput with
    currentSpeed :=
      if x.currentSpeed < lessThanValueStage1 then x.currentSpeed
      else if x.currentSpeed2 < lessThanValueStage2 then x.currentSpeed2 else x.currentSpeed3 }

theorem setLimits_of_slow (e : EcuState) {speed : ℚ} (slow : speed < lessThanValueStage3) :
    e.setLimits speed = { e with autobrakeDist := some 16, collisionDist := some 25 } := by
  unfold EcuState.setLimits
  split
  · rfl
  · split <;> rfl

theorem setTornLimits_eq (e : EcuState) (x : TornInput) :
    e.setTornLimits x = e.setLimits x.settled.currentSpeed := by
  unfold EcuState.setTornLimits TornInput.settled
  simp only
  split
  · rename_i slow
    rw [setLimits_of_slow e (slow.trans (by decide))]
    rfl
  · split
    · rename_i slow
      rw [setLimits_of_slow e (slow.trans (by decide))]
      rfl
    · split
      · rename_i slow
        rw [setLimits_of_slow e slow]
        rfl
      · rename_i fast
        have fast₂ : ¬ x.currentSpeed3 < lessThanValueStage2 := fun h => fast (h.trans (by decide))
        have fast₁ : ¬ x.currentSpeed3 < lessThanValueStage1 := fun h => fast (h.trans (by decide))
        rw [EcuState.setLimits, if_neg fast₁, if_neg fast₂, if_neg fast]

theorem tornCycle_eq (e : EcuState) (x : TornInput) : tornCycle e x = cycle e x.settled := by
  rw [tornCycle, cycle, setTornLimits_eq]
  rfl

theorem runOut_tornCycle (e : EcuState) (xs : List TornInput) :
    runOut tornCycle e xs = runOut cycle e (xs.map TornInput.settled) := by
  induction xs generalizing e with
  | nil => rfl
  | cons x xs ih => simp only [List.map_cons, runOut, tornCycle_eq, ih]

/-- One message for each completed iteration. -/
theorem Follows.sent_length {as : List ThreadAction} {s : Threads} {p : Progress}
    (h : Follows as s p) : s.sent.length = p.done.length := by
  have after := after_of_run ((runOut_tornCycle _ _).symm.trans h.done)
  rw [after.sent]
  simp

/-! ### The refinement -/

/-- What a run of the threads amounts to: `xs` are the inputs of the iterations
that sent their message. -/
structure Batched (as : List ThreadAction) (s : Threads) (xs : List CycleInput) : Prop where
  sent : ∃ e, getMedianDistancesThread xs = .ok (e, s.sent)
  /-- The batches are, in order, what the sensors sampled. -/
  taken : ∀ k, (xs.flatMap fun x => x.batch k) <+: samplesOf k as
  /-- Between two iterations the rest is in the list, or on its way there. -/
  rest : s.pc = .acquire .sensor0 → ∀ k, samplesOf k as =
    (xs.flatMap fun x => x.batch k) ++ (s.distances k ++ (s.sensor k).inFlight)
  speeds : ∀ x ∈ xs, Stored as x.currentSpeed
  /-- The thread ends where the loop over whole iterations raises, and only there. -/
  raises : ∀ e, s.pc = .ended e → ∃ x error, e = .python error ∧ Stored as x.currentSpeed ∧
    getMedianDistancesThread (xs ++ [x]) = .error error

theorem TornInput.stored_settled {x : TornInput} {as : List ThreadAction} (h : x.ReadFrom as) :
    Stored as x.settled.currentSpeed := by
  unfold TornInput.settled
  simp only
  split
  · exact h.1
  · split
    · exact h.2.1
    · exact h.2.2

theorem flatten_settled (xs : List TornInput) (k : SensorId) :
    (xs.map fun x => x.toCycleInput.batch k).flatten =
      (xs.map TornInput.settled).flatMap fun x => x.batch k := by
  rw [List.flatMap_map, List.flatMap_def]
  rfl

theorem Follows.batched {as : List ThreadAction} {s : Threads} {p : Progress}
    (h : Follows as s p) : Batched as s (p.done.map TornInput.settled) where
  sent := ⟨p.before, (runOut_tornCycle _ _).symm.trans h.done⟩
  taken k := by
    rw [← flatten_settled, h.samples k]
    exact List.prefix_append _ _
  rest top k := by
    have none : p.taken k = [] := h.untaken k (by rw [top]; rfl)
    have account := h.samples k
    rw [none, List.nil_append] at account
    rw [account, flatten_settled]
  speeds x mem := by
    obtain ⟨y, inside, rfl⟩ := List.mem_map.mp mem
    exact TornInput.stored_settled (h.speeds y inside)
  raises e ended := by
    cases e with
    | statistics k =>
        have impossible := h.list
        rw [Threads.ListKnown, ended] at impossible
        exact impossible.elim
    | python error =>
        have deciding := h.deciding
        rw [Threads.Deciding, ended] at deciding
        obtain ⟨x, -, read, raised⟩ := deciding
        refine ⟨x.settled, error, rfl, TornInput.stored_settled read, ?_⟩
        have ran := (runOut_tornCycle _ _).symm.trans h.done
        exact runOut_snoc_eq_error ran ((tornCycle_eq _ x).symm.trans raised)

theorem Batched.length_eq {as : List ThreadAction} {s : Threads} {xs : List CycleInput}
    (h : Batched as s xs) : xs.length = s.sent.length := by
  obtain ⟨e, sent⟩ := h.sent
  rw [(after_of_run sent).sent]
  simp

/-- Batches of a run, moment by moment: after each of its prefixes, the iterations
that have sent their message took the first ones of them. -/
def BatchedThroughout (as : List ThreadAction) (xs : List CycleInput) : Prop :=
  ∀ as' s', as' <+: as → run Threads.step Threads.init as' = some s' →
    Batched as' s' (xs.take s'.sent.length)

theorem BatchedThroughout.batched {as : List ThreadAction} {s : Threads} {xs : List CycleInput}
    (h : BatchedThroughout as xs) (reached : run Threads.step Threads.init as = some s)
    (length : xs.length = s.sent.length) : Batched as s xs := by
  have last := h as s List.prefix_rfl reached
  rwa [List.take_of_length_le length.le] at last

/-- One more action leaves the batches of the iterations behind it alone. -/
theorem BatchedThroughout.snoc {as : List ThreadAction} {a : ThreadAction} {s : Threads}
    {xs ys : List CycleInput} (h : BatchedThroughout as xs) (more : xs <+: ys)
    (reached : run Threads.step Threads.init (as ++ [a]) = some s)
    (last : Batched (as ++ [a]) s ys) : BatchedThroughout (as ++ [a]) ys := by
  intro as' s' within reached'
  rcases List.prefix_concat_iff.mp within with rfl | earlier
  · obtain rfl := Option.some.inj (reached.symm.trans reached')
    rwa [List.take_of_length_le last.length_eq.le]
  · have before := h as' s' earlier reached'
    have inside : s'.sent.length ≤ xs.length := by
      rw [← before.length_eq, List.length_take]
      exact min_le_right _ _
    obtain ⟨later, rfl⟩ := more
    rwa [List.take_append_of_le_length inside]

theorem follows_throughout {as : List ThreadAction} {s : Threads}
    (reached : run Threads.step Threads.init as = some s) :
    ∃ p, Follows as s p ∧ BatchedThroughout as (p.done.map TornInput.settled) := by
  have start : ∃ p, Follows [] Threads.init p ∧
      BatchedThroughout [] (p.done.map TornInput.settled) := by
    refine ⟨_, follows_init, fun as' s' within reached' => ?_⟩
    obtain rfl := List.prefix_nil.mp within
    cases reached'
    exact follows_init.batched
  refine (run_induct (P := fun as s => run Threads.step Threads.init as = some s ∧ ∃ p,
    Follows as s p ∧ BatchedThroughout as (p.done.map TornInput.settled)) ⟨rfl, start⟩ ?_ reached).2
  rintro as s a s' ⟨reached, p, follows, throughout⟩ stepped
  have reached' := run_snoc_eq_some.mpr ⟨s, reached, stepped⟩
  obtain ⟨p', more, follows'⟩ := follows.step (follows_of_run reached).1 stepped
  exact ⟨reached', p', follows', throughout.snoc (more.map _) reached' follows'.batched⟩

/-- Whatever the order of their statements, the threads send what
`getMedianDistancesThread` sends over batches that partition the samples of each
sensor in order, each iteration with a speed that the serial thread had stored; and
so they do at every moment before, over the first ones of the same batches. -/
theorem threads_refine (as : List ThreadAction) (s : Threads)
    (reached : run Threads.step Threads.init as = some s) :
    ∃ xs, xs.length = s.sent.length ∧ BatchedThroughout as xs := by
  obtain ⟨p, follows, throughout⟩ := follows_throughout reached
  exact ⟨_, follows.batched.length_eq, throughout⟩

/-- Between two iterations, with no sample that was not taken. -/
structure Threads.Quiet (s : Threads) : Prop where
  top : s.pc = .acquire .sensor0
  idle : ∀ k, s.sensor k = .sampling ∧ s.distances k = []

instance (s : Threads) : Decidable s.Quiet :=
  decidable_of_iff (s.pc = .acquire .sensor0 ∧
      (s.sensor .sensor0 = .sampling ∧ s.distances .sensor0 = []) ∧
      (s.sensor .sensor1 = .sampling ∧ s.distances .sensor1 = []))
    ⟨fun h => ⟨h.1, fun k => by cases k <;> simp [h.2.1, h.2.2]⟩,
      fun h => ⟨h.top, h.idle .sensor0, h.idle .sensor1⟩⟩

theorem quiet_init : Threads.init.Quiet := by decide

/-- At a quiet moment everything sampled has been taken. -/
theorem Batched.taken_eq {as : List ThreadAction} {s : Threads} {xs : List CycleInput}
    (h : Batched as s xs) (quiet : s.Quiet) (k : SensorId) :
    (xs.flatMap fun x => x.batch k) = samplesOf k as := by
  rw [h.rest quiet.top k, (quiet.idle k).1, (quiet.idle k).2]
  simp [SensorPc.inFlight]

/-- Between two quiet moments with one message more, the iteration that sent it took
what was sampled between them. -/
theorem BatchedThroughout.batch_between {as as₁ as₂ : List ThreadAction} {s₁ s₂ : Threads}
    {xs : List CycleInput} {x : CycleInput} {n : ℕ} (h : BatchedThroughout as xs)
    (within₁ : as₁ <+: as) (reached₁ : run Threads.step Threads.init as₁ = some s₁)
    (quiet₁ : s₁.Quiet) (sent₁ : s₁.sent.length = n)
    (within₂ : as₂ <+: as) (reached₂ : run Threads.step Threads.init as₂ = some s₂)
    (quiet₂ : s₂.Quiet) (sent₂ : s₂.sent.length = n + 1) (at_n : xs[n]? = some x)
    (k : SensorId) : samplesOf k as₂ = samplesOf k as₁ ++ x.batch k := by
  rw [← (h as₁ s₁ within₁ reached₁).taken_eq quiet₁ k,
    ← (h as₂ s₂ within₂ reached₂).taken_eq quiet₂ k, sent₁, sent₂, List.take_add_one, at_n,
    List.flatMap_append]
  simp

/-- When the same actions lead from one quiet moment to the next, with one message
each time, every iteration takes what they sample. -/
theorem BatchedThroughout.batch_of_repeated {block : List ThreadAction} {xs : List CycleInput}
    (h : BatchedThroughout (List.replicate xs.length block).flatten xs)
    (moments : ∀ n ≤ xs.length, (run Threads.step Threads.init (List.replicate n block).flatten).any
      (fun s => s.Quiet ∧ s.sent.length = n) = true) :
    ∀ x ∈ xs, ∀ k, x.batch k = samplesOf k block := by
  intro x mem k
  obtain ⟨n, lt, rfl⟩ := List.getElem_of_mem mem
  obtain ⟨s₁, reached₁, known₁⟩ := (Option.any_eq_true _ _).mp (moments n lt.le)
  obtain ⟨s₂, reached₂, known₂⟩ := (Option.any_eq_true _ _).mp (moments (n + 1) lt)
  obtain ⟨quiet₁, sent₁⟩ := of_decide_eq_true known₁
  obtain ⟨quiet₂, sent₂⟩ := of_decide_eq_true known₂
  have within (n : ℕ) (le : n ≤ xs.length) :
      (List.replicate n block).flatten <+: (List.replicate xs.length block).flatten := by
    obtain ⟨d, all⟩ := Nat.exists_eq_add_of_le le
    rw [all, List.replicate_add, List.flatten_append]
    exact List.prefix_append _ _
  have batch := h.batch_between (within n lt.le) reached₁ quiet₁ sent₁ (within (n + 1) lt)
    reached₂ quiet₂ sent₂ (List.getElem?_eq_getElem lt) k
  rw [List.replicate_succ', List.flatten_append, List.flatten_singleton, samplesOf,
    List.filterMap_append] at batch
  exact (List.append_cancel_left batch).symm

theorem Batched.standing {as : List ThreadAction} {s : Threads} {xs : List CycleInput}
    (h : Batched as s xs) (none : ∀ speed, .store speed ∉ as) : ∀ x ∈ xs, x.currentSpeed = 0 :=
  fun x mem => (h.speeds x mem).resolve_right (none _)

/-- A sample of each sensor; the loop takes the first one, finds the lock of the
second one taken, and comes back for it. A second iteration takes what sensor 0
samples after that. -/
theorem threads_refine_contended :
    let first : List ThreadAction := [.sample .sensor0 10, .sensor .sensor0, .sensor .sensor0,
        .sensor .sensor0, .sample .sensor1 40, .sensor .sensor1] ++ List.replicate 5 .loop ++
      [.sensor .sensor1, .sensor .sensor1] ++ List.replicate 9 .loop
    let second : List ThreadAction := .sample .sensor0 12 ::
      List.replicate 3 (.sensor .sensor0) ++ List.replicate 13 .loop
    ∃ s, run Threads.step Threads.init (first ++ second) = some s ∧ s.sent.length = 2 ∧
      BatchedThroughout (first ++ second) [⟨[10], [40], 0⟩, ⟨[12], [], 0⟩] := by
  intro first second
  have sends : (run Threads.step Threads.init first).any
      (fun s => s.Quiet ∧ s.sent.length = 1) = true := by
    decide +kernel
  have sends' : (run Threads.step Threads.init (first ++ second)).any
      (fun s => s.Quiet ∧ s.sent.length = 2) = true := by
    decide +kernel
  obtain ⟨s, reached, known⟩ := (Option.any_eq_true _ _).mp sends
  obtain ⟨s', reached', known'⟩ := (Option.any_eq_true _ _).mp sends'
  obtain ⟨quiet, one⟩ := of_decide_eq_true known
  obtain ⟨quiet', two⟩ := of_decide_eq_true known'
  obtain ⟨xs, length, throughout⟩ := threads_refine (first ++ second) s' reached'
  refine ⟨s', reached', two, ?_⟩
  obtain ⟨x, y, rfl⟩ := List.length_eq_two.mp (length.trans two)
  have batched := throughout.batched reached' length
  have standing := batched.standing (by simp [first, second])
  have x_batch := throughout.batch_between List.nil_prefix rfl quiet_init rfl
    (List.prefix_append _ _) reached quiet one (x := x) rfl
  have y_batch := throughout.batch_between (List.prefix_append _ _) reached quiet one
    List.prefix_rfl reached' quiet' two (x := y) rfl
  have x0 : x.sensor0Distances = [10] := (x_batch .sensor0).symm
  have x1 : x.sensor1Distances = [40] := (x_batch .sensor1).symm
  have y0 : [10] ++ [12] = [10] ++ y.sensor0Distances := y_batch .sensor0
  have y1 : [40] ++ [] = [40] ++ y.sensor1Distances := y_batch .sensor1
  rw [List.append_cancel_left_eq] at y0 y1
  have x_speed := standing x (by simp)
  have y_speed := standing y (by simp)
  obtain rfl : x = ⟨[10], [40], 0⟩ := by rw [← x0, ← x1, ← x_speed]
  obtain rfl : y = ⟨[12], [], 0⟩ := by rw [y0, y1, ← y_speed]
  exact throughout

/-! ### No lock is held for good -/

end Adas.Ecu
