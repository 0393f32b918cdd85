import Adas.Esp.Bridge
import Adas.Esp.Pulse

/-!
The alarm task beside the two others (`alarms_task`, `main.c`).

It beeps in state 1, is silent in state 0, and has no branch for state 2, where it
only looks at `current_state` again; the buzzer belongs to `emergency_brake` then.
Nothing else keeps the two apart: an iteration that began before the state
changed still makes its write. `held` is that write, and it is the only thing
that can disturb the brake's sound (`brake_sounds_iff`) or the silence after it
(`silent_after_brake_iff`). The motors do not depend on the alarm task at all
(`alarms_isolated`).
-/

namespace Adas.Esp

open Lib

/-! ### The task -/

/-- The next statement of `alarms_task`. -/
inductive AlarmsPc where
  /-- `switch (current_state)` -/
  | switching
  /-- `case 0`: before `gpio_set_level(BUZZER_GPIO, 0)`. -/
  | silence
  /-- `case 1`: before `buzzer_status = !buzzer_status`. -/
  | toggle
  /-- Before `gpio_set_level(BUZZER_GPIO, buzzer_status)`. -/
  | sound
  /-- In `vTaskDelay`, for 5 or 80 ms. -/
  | delay (ms : ℕ)
  deriving DecidableEq, Repr

/-- The three tasks. -/
structure AlarmState where
  tasks : Tasks
  pc : AlarmsPc
  buzzerStatus : Bool

def AlarmState.init : AlarmState := ⟨Tasks.init, .switching, false⟩

/-- What the buzzer pin shows. -/
def AlarmState.buzzer (s : AlarmState) : Bool := s.tasks.outputs.buzzer

def AlarmState.setBuzzer (s : AlarmState) (level : Bool) : Tasks :=
  { s.tasks with outputs := (Call.gpioSetLevel level).exec s.tasks.outputs }

/-- The next statement of the alarm task. The `switch` has no `default`. -/
def AlarmState.alarmsTask (s : AlarmState) : AlarmState :=
  match s.pc with
  | .switching =>
      if s.tasks.reader.currentState = 0 then { s with pc := .silence }
      else if s.tasks.reader.currentState = 1 then { s with pc := .toggle }
      else s
  | .silence => { s with tasks := s.setBuzzer false, pc := .delay 5 }
  | .toggle => { s with buzzerStatus := !s.buzzerStatus, pc := .sound }
  | .sound => { s with tasks := s.setBuzzer s.buzzerStatus, pc := .delay 80 }
  | .delay _ => { s with pc := .switching }

inductive AlarmAction where
  /-- An atomic step of one of the two other tasks. -/
  | task (a : Action)
  /-- The next statement of the alarm task. -/
  | alarms

def AlarmState.step (s : AlarmState) : AlarmAction → Option AlarmState
  | .task a => (atomicStep s.tasks a).map fun tasks => { s with tasks }
  | .alarms => some s.alarmsTask

theorem AlarmState.step_cases {s s' : AlarmState} {a : AlarmAction} (h : s.step a = some s') :
    (∃ b tasks, a = .task b ∧ atomicStep s.tasks b = some tasks ∧ s' = { s with tasks }) ∨
    (a = .alarms ∧ s' = s.alarmsTask) := by
  cases a with
  | task b =>
      obtain ⟨tasks, stepped, rfl⟩ := Option.map_eq_some_iff.mp h
      exact Or.inl ⟨b, tasks, rfl, stepped, rfl⟩
  | alarms => exact Or.inr ⟨rfl, (Option.some.inj h).symm⟩

@[simp] theorem AlarmState.alarmsTask_reader (s : AlarmState) :
    s.alarmsTask.tasks.reader = s.tasks.reader := by
  unfold alarmsTask
  repeat' split
  all_goals rfl

@[simp] theorem AlarmState.alarmsTask_brake (s : AlarmState) :
    s.alarmsTask.tasks.brake = s.tasks.brake := by
  unfold alarmsTask
  repeat' split
  all_goals rfl

@[simp] theorem AlarmState.alarmsTask_callback (s : AlarmState) :
    s.alarmsTask.tasks.callback = s.tasks.callback := by
  unfold alarmsTask
  repeat' split
  all_goals rfl

/-! ### The motors -/

/-- The steps of the two other tasks. -/
def taskActions (as : List AlarmAction) : List Action :=
  as.filterMap fun
    | .task a => some a
    | .alarms => none

/-- Equal but for the buzzer. -/
structure SameButBuzzer (t t' : Tasks) : Prop where
  reader : t.reader = t'.reader
  xAxis : t.xAxis = t'.xAxis
  yAxis : t.yAxis = t'.yAxis
  mcpwm : t.outputs.mcpwm = t'.outputs.mcpwm
  callback : t.callback = t'.callback
  brake : t.brake = t'.brake

theorem sameButBuzzer_refl (t : Tasks) : SameButBuzzer t t := ⟨rfl, rfl, rfl, rfl, rfl, rfl⟩

/-- No call looks at the buzzer. -/
theorem Call.exec_mcpwm {out out' : Outputs} (same : out.mcpwm = out'.mcpwm) (c : Call) :
    (c.exec out).mcpwm = (c.exec out').mcpwm := by
  cases c <;> simp only [exec, Outputs.modify, same]

/-- So neither do the two other tasks. -/
theorem SameButBuzzer.step {t t' u : Tasks} {a : Action} (h : SameButBuzzer t t')
    (stepped : atomicStep t a = some u) :
    ∃ u', atomicStep t' a = some u' ∧ SameButBuzzer u u' := by
  rcases atomicStep_cases stepped with ⟨ind, rfl, idle, rfl⟩ | ⟨x, y, rfl, testing, rfl⟩ |
    ⟨c, calls, rfl, here, rfl⟩ | ⟨data, rfl, idle, rfl⟩ | ⟨c, calls, rfl, here, rfl⟩
  · have moved : atomicStep t' (.dataInd ind) = some { t' with
        xAxis := ind.xAxis, yAxis := ind.yAxis, callback := .testing ind.xAxis ind.yAxis } := by
      simp only [atomicStep, ← h.callback, idle]
    exact ⟨_, moved, h.reader, rfl, rfl, h.mcpwm, rfl, h.brake⟩
  · have moved : atomicStep t' .test = some { t' with
        callback := .calling (mcpwmMotorControl t'.reader.currentState x y) } := by
      simp only [atomicStep, ← h.callback, testing]
    exact ⟨_, moved, h.reader, h.xAxis, h.yAxis, h.mcpwm, by simp only [h.reader], h.brake⟩
  · have moved : atomicStep t' .motorCall = some { t' with
        outputs := c.exec t'.outputs, callback := .calling calls } := by
      simp only [atomicStep, ← h.callback, here]
    exact ⟨_, moved, h.reader, h.xAxis, h.yAxis, Call.exec_mcpwm h.mcpwm c, rfl, h.brake⟩
  · have moved : atomicStep t' (.read data) = some { t' with
        reader := (t'.reader.receive data).1
        brake := if (t'.reader.receive data).2 then emergencyBrake else [] } :=
      if_pos (h.brake.symm.trans idle)
    exact ⟨_, moved, by simp only [h.reader], h.xAxis, h.yAxis, h.mcpwm, h.callback,
      by simp only [h.reader]⟩
  · have moved : atomicStep t' .brakeCall = some { t' with
        outputs := c.exec t'.outputs, brake := calls } := by
      simp only [atomicStep, ← h.brake, here]
    exact ⟨_, moved, h.reader, h.xAxis, h.yAxis, Call.exec_mcpwm h.mcpwm c, h.callback, rfl⟩

/-- Nor does the alarm task touch anything else. -/
theorem AlarmState.alarmsTask_same (s : AlarmState) :
    SameButBuzzer s.alarmsTask.tasks s.tasks := by
  unfold alarmsTask
  repeat' split
  all_goals exact ⟨rfl, rfl, rfl, rfl, rfl, rfl⟩

theorem SameButBuzzer.trans {t t' t'' : Tasks} (h : SameButBuzzer t t')
    (h' : SameButBuzzer t' t'') : SameButBuzzer t t'' :=
  ⟨h.reader.trans h'.reader, h.xAxis.trans h'.xAxis, h.yAxis.trans h'.yAxis,
    h.mcpwm.trans h'.mcpwm, h.callback.trans h'.callback, h.brake.trans h'.brake⟩

/-- Whatever the alarm task does in between, the two other tasks run as they do
without it: same reader, same axes, same motors. -/
theorem alarms_isolated (as : List AlarmAction) (s : AlarmState)
    (reached : run AlarmState.step AlarmState.init as = some s) :
    ∃ t, run atomicStep Tasks.init (taskActions as) = some t ∧ SameButBuzzer s.tasks t := by
  refine run_induct (P := fun as s => ∃ t, run atomicStep Tasks.init (taskActions as) = some t ∧
    SameButBuzzer s.tasks t) ⟨Tasks.init, rfl, sameButBuzzer_refl _⟩ ?_ reached
  rintro as s a s' ⟨t, ran, same⟩ stepped
  rcases AlarmState.step_cases stepped with ⟨b, tasks, rfl, moved, rfl⟩ | ⟨rfl, rfl⟩
  · obtain ⟨t', moved', same'⟩ := same.step moved
    refine ⟨t', ?_, same'⟩
    simpa [taskActions] using run_snoc_eq_some.mpr ⟨t, ran, moved'⟩
  · refine ⟨t, ?_, s.alarmsTask_same.trans same⟩
    simpa [taskActions] using ran

/-- A warning with its alarm, a packet in between, and the brake. -/
theorem alarms_isolated_braking :
    let as := [.task (.read [49]), .alarms, .alarms, .task (.dataInd (DataInd.ofBytes
      [48, 50, 48, 48, 51, 48, 48])), .alarms, .task .test, .task (.read [50]), .task .brakeCall]
    ∃ s t, run AlarmState.step AlarmState.init as = some s ∧
      run atomicStep Tasks.init (taskActions as) = some t ∧ SameButBuzzer s.tasks t := by
  intro as
  obtain ⟨t, ran, same⟩ := alarms_isolated as _ rfl
  exact ⟨_, t, rfl, ran, same⟩

/-! ### Who sets the buzzer -/

/-- A call that leaves the buzzer alone. -/
def Call.Mute (c : Call) : Prop := ∀ level, c ≠ .gpioSetLevel level

theorem Call.Mute.exec {c : Call} (h : c.Mute) (out : Outputs) :
    (c.exec out).buzzer = out.buzzer := by
  cases c with
  | gpioSetLevel level => exact absurd rfl (h level)
  | _ => rfl

theorem mcpwmMotorControl_mute (currentState : UInt8) (xAxis yAxis : Int8) :
    ∀ c ∈ mcpwmMotorControl currentState xAxis yAxis, c.Mute := by
  simp only [mcpwmMotorControl]
  repeat' split
  all_goals simp [Call.Mute, brushedMotorForward, brushedMotorBackward, brushedMotorStop]

/-- `emergency_brake` sets the buzzer with its first call and clears it with its last. -/
theorem emergencyBrake_calls {c : Call} {calls : List Call}
    (within : c :: calls <:+ emergencyBrake) :
    (c = .gpioSetLevel true ∧ c :: calls = emergencyBrake) ∨
    (c = .gpioSetLevel false ∧ calls = []) ∨ (c.Mute ∧ c :: calls ≠ emergencyBrake) := by
  obtain ⟨made, split⟩ := within
  cases made with
  | nil =>
      have whole : c :: calls = emergencyBrake := split
      exact Or.inl ⟨(List.cons.inj whole).1, whole⟩
  | cons d made =>
      have tail : made ++ c :: calls = emergencyBrake.tail := by rw [← split]; rfl
      by_cases last : calls = []
      · subst last
        have final := congrArg List.getLast? tail
        rw [List.getLast?_concat] at final
        exact Or.inr (Or.inl ⟨Option.some.inj final, rfl⟩)
      · have inner : c ∈ emergencyBrake.tail.dropLast := by
          rw [← tail, List.dropLast_append_of_ne_nil (List.cons_ne_nil c calls),
            List.dropLast_cons_of_ne_nil last]
          simp
        have mute : ∀ b ∈ emergencyBrake.tail.dropLast, b.Mute := by
          simp [emergencyBrake, brushedMotorStop, brushedMotorBackward, Call.Mute]
        refine Or.inr (Or.inr ⟨mute c inner, fun whole => ?_⟩)
        have longer := congrArg List.length split
        rw [whole] at longer
        simp only [List.length_append, List.length_cons] at longer
        omega

/-- The callback leaves the buzzer alone, and the brake runs in state 2 only. -/
structure Orderly (t : Tasks) : Prop where
  callback : ∀ calls, t.callback = .calling calls → ∀ c ∈ calls, c.Mute
  brake : t.brake <:+ emergencyBrake
  braking : t.brake ≠ [] → t.reader.currentState = 2

theorem orderly_init : Orderly Tasks.init where
  callback calls h := by
    cases h
    simp
  brake := List.nil_suffix
  braking h := absurd rfl h

theorem Orderly.step {t t' : Tasks} {a : Action} (h : Orderly t)
    (stepped : atomicStep t a = some t') : Orderly t' := by
  rcases atomicStep_cases stepped with ⟨ind, rfl, idle, rfl⟩ | ⟨x, y, rfl, testing, rfl⟩ |
    ⟨c, calls, rfl, here, rfl⟩ | ⟨data, rfl, idle, rfl⟩ | ⟨c, calls, rfl, here, rfl⟩
  · refine ⟨fun calls same => ?_, h.brake, h.braking⟩
    cases same
  · refine ⟨fun calls same => ?_, h.brake, h.braking⟩
    cases same
    exact mcpwmMotorControl_mute _ x y
  · refine ⟨fun calls' same => ?_, h.brake, h.braking⟩
    cases same
    exact fun c' mem => h.callback _ here c' (List.mem_cons_of_mem _ mem)
  · refine ⟨h.callback, ?_, fun pending => ?_⟩
    · cases (t.reader.receive data).2 with
      | true => exact List.suffix_rfl
      | false => exact List.nil_suffix
    · cases brakes : (t.reader.receive data).2 with
      | true => exact Reader.currentState_of_brakes brakes
      | false => simp [brakes] at pending
  · have suffix := h.brake
    rw [here] at suffix
    exact ⟨h.callback, (List.suffix_cons c calls).trans suffix,
      fun _ => h.braking (by rw [here]; exact List.cons_ne_nil c calls)⟩

/-- What a step of the two other tasks does to the buzzer: nothing, or what the
first or the last call of the brake does. -/
theorem Orderly.buzzer_step {t t' : Tasks} {a : Action} (h : Orderly t)
    (stepped : atomicStep t a = some t') :
    (t'.outputs.buzzer = t.outputs.buzzer ∧
      (a = .brakeCall → t.brake ≠ emergencyBrake)) ∨
    (a = .brakeCall ∧ t.brake = emergencyBrake ∧ t'.outputs.buzzer = true) ∨
    (a = .brakeCall ∧ t'.brake = [] ∧ t'.outputs.buzzer = false) := by
  rcases atomicStep_cases stepped with ⟨ind, rfl, idle, rfl⟩ | ⟨x, y, rfl, testing, rfl⟩ |
    ⟨c, calls, rfl, here, rfl⟩ | ⟨data, rfl, idle, rfl⟩ | ⟨c, calls, rfl, here, rfl⟩
  · exact Or.inl ⟨rfl, nofun⟩
  · exact Or.inl ⟨rfl, nofun⟩
  · have mute := h.callback _ here c List.mem_cons_self
    exact Or.inl ⟨mute.exec _, nofun⟩
  · exact Or.inl ⟨rfl, nofun⟩
  · have suffix := h.brake
    rw [here] at suffix
    rcases emergencyBrake_calls suffix with ⟨rfl, whole⟩ | ⟨rfl, last⟩ | ⟨mute, notFirst⟩
    · exact Or.inr (Or.inl ⟨rfl, here.trans whole, rfl⟩)
    · exact Or.inr (Or.inr ⟨rfl, last, rfl⟩)
    · exact Or.inl ⟨mute.exec _, fun _ => by rw [here]; exact notFirst⟩

theorem Orderly.alarms {s : AlarmState} (h : Orderly s.tasks) : Orderly s.alarmsTask.tasks where
  callback := by simpa using h.callback
  brake := by simpa using h.brake
  braking := by simpa using h.braking

theorem Orderly.reached {as : List AlarmAction} {s : AlarmState}
    (reached : run AlarmState.step AlarmState.init as = some s) : Orderly s.tasks := by
  refine run_induct (P := fun _ s => Orderly s.tasks) orderly_init ?_ reached
  intro as s a s' orderly stepped
  rcases AlarmState.step_cases stepped with ⟨b, tasks, rfl, moved, rfl⟩ | ⟨rfl, rfl⟩
  · exact orderly.step moved
  · exact orderly.alarms

/-! ### The write under way -/

/-- The level that an iteration already past its `switch` has still to write. -/
def AlarmState.held (s : AlarmState) : Option Bool :=
  match s.pc with
  | .silence => some false
  | .toggle => some (!s.buzzerStatus)
  | .sound => some s.buzzerStatus
  | .switching => none
  | .delay _ => none

/-- In state 2 the alarm task makes the write under way and no other. -/
theorem AlarmState.alarmsTask_braking {s : AlarmState}
    (braking : s.tasks.reader.currentState = 2) :
    (s.alarmsTask.held = s.held ∧ s.alarmsTask.buzzer = s.buzzer) ∨
    (s.held = some s.alarmsTask.buzzer ∧ s.alarmsTask.held = none) := by
  obtain ⟨tasks, pc, buzzerStatus⟩ := s
  cases pc with
  | switching =>
      have stays : ({ tasks, pc := .switching, buzzerStatus } : AlarmState).alarmsTask =
          { tasks, pc := .switching, buzzerStatus } := by
        simp only at braking
        simp [alarmsTask, braking]
      exact Or.inl ⟨by rw [stays], by rw [stays]⟩
  | silence => exact Or.inr ⟨rfl, rfl⟩
  | toggle => exact Or.inl ⟨rfl, rfl⟩
  | sound => exact Or.inr ⟨rfl, rfl⟩
  | delay ms => exact Or.inl ⟨rfl, rfl⟩

/-- It makes that write within two statements. -/
theorem AlarmState.held_written {s : AlarmState} {level : Bool} (held : s.held = some level) :
    ∃ n s', run AlarmState.step s (List.replicate n .alarms) = some s' ∧ s'.buzzer = level ∧
      s'.tasks.brake = s.tasks.brake := by
  obtain ⟨tasks, pc, buzzerStatus⟩ := s
  cases pc with
  | switching => cases held
  | silence => exact ⟨1, _, rfl, Option.some.inj held, rfl⟩
  | toggle => exact ⟨2, _, rfl, Option.some.inj held, rfl⟩
  | sound => exact ⟨1, _, rfl, Option.some.inj held, rfl⟩
  | delay ms => cases held

@[simp] theorem AlarmState.held_tasks (s : AlarmState) (tasks : Tasks) :
    ({ s with tasks } : AlarmState).held = s.held := rfl

/-- `emergency_brake` has made its first call, and not yet its last. -/
def AlarmState.Sounding (s : AlarmState) : Prop :=
  s.tasks.brake ≠ [] ∧ s.tasks.brake ≠ emergencyBrake

/-- No read among the actions: the UART task is in one call of `emergency_brake`. -/
def WithoutReads (bs : List AlarmAction) : Prop := ∀ data, .task (.read data) ∉ bs

/-- Without a read the state stays, and the brake only goes on. -/
theorem atomicStep_of_not_read {t t' : Tasks} {a : Action} (stepped : atomicStep t a = some t')
    (other : ∀ data, a ≠ .read data) :
    t'.reader = t.reader ∧ (a ≠ .brakeCall → t'.brake = t.brake) ∧
      (a = .brakeCall → t.brake ≠ []) := by
  rcases atomicStep_cases stepped with ⟨ind, rfl, idle, rfl⟩ | ⟨x, y, rfl, testing, rfl⟩ |
    ⟨c, calls, rfl, here, rfl⟩ | ⟨data, rfl, idle, rfl⟩ | ⟨c, calls, rfl, here, rfl⟩
  · exact ⟨rfl, fun _ => rfl, nofun⟩
  · exact ⟨rfl, fun _ => rfl, nofun⟩
  · exact ⟨rfl, fun _ => rfl, nofun⟩
  · exact absurd rfl (other data)
  · exact ⟨rfl, fun still => absurd rfl still, fun _ => by rw [here]; exact List.cons_ne_nil _ _⟩

/-- What holds all through one call of `emergency_brake` that no held write disturbs. -/
structure Sound (s : AlarmState) : Prop where
  orderly : Orderly s.tasks
  braking : s.tasks.reader.currentState = 2
  held : s.held ≠ some false
  on : s.Sounding → s.buzzer = true

theorem Sound.task {s : AlarmState} {tasks : Tasks} {b : Action} (h : Sound s)
    (stepped : atomicStep s.tasks b = some tasks) (other : ∀ data, b ≠ .read data) :
    Sound { s with tasks } := by
  obtain ⟨sameReader, sameBrake, busy⟩ := atomicStep_of_not_read stepped other
  refine ⟨h.orderly.step stepped, ?_, h.held, ?_⟩
  · exact (congrArg Reader.currentState sameReader).trans h.braking
  intro sounding
  rcases h.orderly.buzzer_step stepped with ⟨kept, notFirst⟩ | ⟨-, -, on⟩ | ⟨-, done, -⟩
  · have before : s.Sounding := by
      by_cases call : b = .brakeCall
      · exact ⟨busy call, notFirst call⟩
      · simpa only [AlarmState.Sounding, sameBrake call] using sounding
    exact kept.trans (h.on before)
  · exact on
  · exact absurd done sounding.1

theorem Sound.alarms {s : AlarmState} (h : Sound s) : Sound s.alarmsTask := by
  have orderly := h.orderly.alarms
  have braking : s.alarmsTask.tasks.reader.currentState = 2 := by simpa using h.braking
  have sounding : s.alarmsTask.Sounding → s.Sounding := by simp [AlarmState.Sounding]
  rcases AlarmState.alarmsTask_braking h.braking with ⟨held, kept⟩ | ⟨made, held⟩
  · exact ⟨orderly, braking, held ▸ h.held, fun after => kept.trans (h.on (sounding after))⟩
  · refine ⟨orderly, braking, by simp [held], fun _ => ?_⟩
    cases level : s.alarmsTask.buzzer with
    | true => rfl
    | false => exact absurd (level ▸ made) h.held

theorem WithoutReads.snoc {bs : List AlarmAction} {a : AlarmAction}
    (h : WithoutReads (bs ++ [a])) :
    WithoutReads bs ∧ ∀ data, a ≠ .task (.read data) :=
  ⟨fun data mem => h data (List.mem_append_left _ mem),
    fun data same => h data (by simp [same])⟩

/-- The brake is heard from its first call to its last, whatever runs beside it,
exactly when no write of a 0 is under way in the alarm task when it begins. -/
theorem brake_sounds_iff (as : List AlarmAction) (s₀ : AlarmState)
    (reached : run AlarmState.step AlarmState.init as = some s₀)
    (begins : s₀.tasks.brake = emergencyBrake) :
    (∀ bs s, run AlarmState.step s₀ bs = some s → WithoutReads bs → s.Sounding →
      s.buzzer = true) ↔ s₀.held ≠ some false := by
  constructor
  · intro sounds held
    -- The first call, and then the write under way.
    let s₁ : AlarmState := { s₀ with tasks := { s₀.tasks with
      outputs := (Call.gpioSetLevel true).exec s₀.tasks.outputs, brake := emergencyBrake.tail } }
    have first : AlarmState.step s₀ (.task .brakeCall) = some s₁ := by
      simp only [AlarmState.step, atomicStep, begins]
      rfl
    obtain ⟨n, s, ran, off, brake⟩ := AlarmState.held_written (s := s₁) held
    have quiet : WithoutReads (.task .brakeCall :: List.replicate n .alarms) := by
      intro data mem
      simp at mem
    have left : s.tasks.brake = emergencyBrake.tail := brake
    have sounding : s.Sounding := by
      unfold AlarmState.Sounding
      rw [left]
      decide
    have on := sounds _ s (run_cons_eq_some.mpr ⟨s₁, first, ran⟩) quiet sounding
    rw [off] at on
    cases on
  · intro free bs s ran quiet
    have orderly := Orderly.reached reached
    have start : Sound s₀ := by
      refine ⟨orderly, orderly.braking ?_, free, fun sounding => absurd begins sounding.2⟩
      rw [begins]
      decide
    refine (run_induct (P := fun bs s => WithoutReads bs → Sound s) (fun _ => start) ?_ ran
      quiet).on
    intro bs s a s' before stepped quiet
    obtain ⟨earlier, other⟩ := quiet.snoc
    rcases AlarmState.step_cases stepped with ⟨b, tasks, rfl, moved, rfl⟩ | ⟨rfl, rfl⟩
    · exact (before earlier).task moved fun data same => other data (same ▸ rfl)
    · exact (before earlier).alarms

/-- The ECU says 2 and braked with it while the alarm task waited in its delay. -/
theorem brake_sounds_iff_waiting :
    let as := [.task (.read [49]), .alarms, .alarms, .alarms, .task (.read [50])]
    ∃ s₀, run AlarmState.step AlarmState.init as = some s₀ ∧
      ∀ bs s, run AlarmState.step s₀ bs = some s → WithoutReads bs → s.Sounding →
        s.buzzer = true := by
  intro as
  exact ⟨_, rfl, (brake_sounds_iff as _ rfl rfl).mpr (by decide)⟩

/-! ### A state that stays -/

/-- Every byte that a read finds first says `v`. -/
def Keeps (v : UInt8) (bs : List AlarmAction) : Prop :=
  ∀ byte rest, .task (.read (byte :: rest)) ∈ bs → byte - 48 = v

theorem Keeps.snoc {v : UInt8} {bs : List AlarmAction} {a : AlarmAction}
    (h : Keeps v (bs ++ [a])) :
    Keeps v bs ∧ ∀ byte rest, a = .task (.read (byte :: rest)) → byte - 48 = v :=
  ⟨fun byte rest mem => h byte rest (List.mem_append_left _ mem),
    fun byte rest same => h byte rest (by simp [same])⟩

/-- State `v`, and `emergency_brake` is not running. -/
structure Steady (v : UInt8) (s : AlarmState) : Prop where
  orderly : Orderly s.tasks
  state : s.tasks.reader.currentState = v
  idle : s.tasks.brake = []

/-- The brake runs in state 2 only. -/
theorem Steady.of_reached {v : UInt8} {as : List AlarmAction} {s : AlarmState}
    (reached : run AlarmState.step AlarmState.init as = some s)
    (state : s.tasks.reader.currentState = v) (other : v ≠ 2) : Steady v s := by
  have orderly := Orderly.reached reached
  refine ⟨orderly, state, ?_⟩
  by_contra running
  exact other (state.symm.trans (orderly.braking running))

theorem Steady.alarms {v : UInt8} {s : AlarmState} (h : Steady v s) : Steady v s.alarmsTask where
  orderly := h.orderly.alarms
  state := by simpa using h.state
  idle := by simpa using h.idle

/-- The two other tasks then leave the buzzer alone. -/
theorem Steady.task {v : UInt8} {s : AlarmState} {tasks : Tasks} {b : Action} (h : Steady v s)
    (stepped : atomicStep s.tasks b = some tasks)
    (same : ∀ byte rest, b = .read (byte :: rest) → byte - 48 = v) :
    Steady v { s with tasks } ∧ tasks.outputs.buzzer = s.buzzer := by
  have still : b ≠ .brakeCall := by
    rintro rfl
    simp [atomicStep, h.idle] at stepped
  have kept : tasks.reader.currentState = v ∧ tasks.brake = [] := by
    rcases atomicStep_cases stepped with ⟨ind, rfl, -, rfl⟩ | ⟨x, y, rfl, -, rfl⟩ |
      ⟨c, calls, rfl, -, rfl⟩ | ⟨data, rfl, -, rfl⟩ | ⟨c, calls, rfl, -, rfl⟩
    · exact ⟨h.state, h.idle⟩
    · exact ⟨h.state, h.idle⟩
    · exact ⟨h.state, h.idle⟩
    · have stays := Reader.receive_same s.tasks.reader data fun byte rest here =>
        (same byte rest (by rw [here])).trans h.state.symm
      exact ⟨stays.1.trans h.state, by simp [stays.2]⟩
    · exact absurd rfl still
  refine ⟨⟨h.orderly.step stepped, kept.1, kept.2⟩, ?_⟩
  rcases h.orderly.buzzer_step stepped with ⟨mute, -⟩ | ⟨call, -, -⟩ | ⟨call, -, -⟩
  · exact mute
  · exact absurd call still
  · exact absurd call still

/-- How many statements of its own the alarm task made. -/
def statements (bs : List AlarmAction) : ℕ :=
  bs.countP fun
    | .alarms => true
    | .task _ => false

@[simp] theorem statements_task (bs : List AlarmAction) (b : Action) :
    statements (bs ++ [.task b]) = statements bs := by
  simp [statements]

@[simp] theorem statements_alarms (bs : List AlarmAction) :
    statements (bs ++ [.alarms]) = statements bs + 1 := by
  simp [statements]

/-- While the state stays, what holds of the alarm task after so many of its own
statements is a matter of those statements alone. -/
theorem Steady.run_induct {v : UInt8} {s₀ : AlarmState} (start : Steady v s₀)
    {P : ℕ → AlarmState → Prop} (first : P 0 s₀)
    (frame : ∀ k s tasks, P k s → tasks.outputs.buzzer = s.buzzer → P k { s with tasks })
    (keep : ∀ k s, Steady v s → P k s → P (k + 1) s.alarmsTask) {bs : List AlarmAction}
    {s : AlarmState} (ran : run AlarmState.step s₀ bs = some s) (keeps : Keeps v bs) :
    P (statements bs) s := by
  refine (Lib.run_induct (P := fun bs s => Keeps v bs → Steady v s ∧ P (statements bs) s)
    (fun _ => ⟨start, first⟩) ?_ ran keeps).2
  intro bs s a s' before stepped keeps
  obtain ⟨earlier, same⟩ := keeps.snoc
  obtain ⟨steady, holds⟩ := before earlier
  rcases AlarmState.step_cases stepped with ⟨b, tasks, rfl, moved, rfl⟩ | ⟨rfl, rfl⟩
  · obtain ⟨steady', kept⟩ := steady.task moved fun byte rest here => same byte rest (here ▸ rfl)
    rw [statements_task]
    exact ⟨steady', frame _ s tasks holds kept⟩
  · rw [statements_alarms]
    exact ⟨steady.alarms, keep _ s steady holds⟩

/-! ### What is heard in each state -/

/-- After the brake, as long as the ECU keeps saying 2, the buzzer is silent exactly
when no write of a 1 was under way in the alarm task. -/
theorem silent_after_brake_iff (as : List AlarmAction) (s₀ : AlarmState)
    (reached : run AlarmState.step AlarmState.init as = some s₀)
    (braking : s₀.tasks.reader.currentState = 2) (idle : s₀.tasks.brake = [])
    (off : s₀.buzzer = false) :
    (∀ bs s, run AlarmState.step s₀ bs = some s → Keeps 2 bs → s.buzzer = false) ↔
      s₀.held ≠ some true := by
  constructor
  · intro silent held
    obtain ⟨n, s, ran, on, -⟩ := AlarmState.held_written held
    have keeps : Keeps 2 (List.replicate n .alarms) := by
      intro byte rest mem
      simp at mem
    have quiet := silent _ s ran keeps
    rw [on] at quiet
    cases quiet
  · intro free bs s ran keeps
    have start : Steady 2 s₀ := ⟨Orderly.reached reached, braking, idle⟩
    refine (start.run_induct (P := fun _ s => s.held ≠ some true ∧ s.buzzer = false)
      ⟨free, off⟩ ?_ ?_ ran keeps).2
    · exact fun _ s tasks holds kept => ⟨holds.1, kept.trans holds.2⟩
    · rintro k s steady ⟨held, quiet⟩
      rcases AlarmState.alarmsTask_braking steady.state with ⟨same, kept⟩ | ⟨made, none⟩
      · exact ⟨same ▸ held, kept.trans quiet⟩
      · refine ⟨by simp [none], ?_⟩
        cases level : s.alarmsTask.buzzer with
        | true => exact absurd (level ▸ made) held
        | false => rfl

/-- A whole brake with the alarm task in its delay, and then a read of another 2. -/
theorem silent_after_brake_iff_waiting :
    let as := [.task (.read [49]), .alarms, .alarms, .alarms, .task (.read [50])] ++
      List.replicate 18 (.task .brakeCall)
    ∃ s₀, run AlarmState.step AlarmState.init as = some s₀ ∧
      ∀ bs s, run AlarmState.step s₀ bs = some s → Keeps 2 bs → s.buzzer = false := by
  intro as
  exact ⟨_, rfl, (silent_after_brake_iff as _ rfl rfl rfl rfl).mpr (by decide)⟩

/-- How many statements away the next write of `case 0` is, in state 0. -/
def AlarmState.toSilence (s : AlarmState) : ℕ :=
  match s.pc with
  | .silence => 1
  | .switching => 2
  | .delay _ => 3
  | .sound => 4
  | .toggle => 5

theorem AlarmState.alarmsTask_normal {s : AlarmState}
    (normal : s.tasks.reader.currentState = 0) :
    (s.toSilence = 1 ∧ s.alarmsTask.toSilence = 3 ∧ s.alarmsTask.buzzer = false) ∨
    (s.alarmsTask.toSilence + 1 = s.toSilence ∧
      (s.toSilence ≤ 3 → s.alarmsTask.buzzer = s.buzzer)) := by
  obtain ⟨tasks, pc, buzzerStatus⟩ := s
  cases pc with
  | switching =>
      have moved : ({ tasks, pc := .switching, buzzerStatus } : AlarmState).alarmsTask =
          { tasks, pc := .silence, buzzerStatus } := if_pos normal
      exact Or.inr ⟨by rw [moved]; rfl, fun _ => by rw [moved]; rfl⟩
  | silence => exact Or.inl ⟨rfl, rfl, rfl⟩
  | toggle => exact Or.inr ⟨rfl, fun _ => rfl⟩
  | sound => exact Or.inr ⟨rfl, fun near => absurd near (by decide : ¬ 4 ≤ 3)⟩
  | delay ms => exact Or.inr ⟨rfl, fun _ => rfl⟩

/-- In state 0 the buzzer is off after five statements of the alarm task, and stays
off, wherever the alarm task and the two others were. -/
theorem quiet_in_state_zero (as : List AlarmAction) (s₀ : AlarmState)
    (reached : run AlarmState.step AlarmState.init as = some s₀)
    (normal : s₀.tasks.reader.currentState = 0) (bs : List AlarmAction) (s : AlarmState)
    (ran : run AlarmState.step s₀ bs = some s) (keeps : Keeps 0 bs)
    (long : 5 ≤ statements bs) : s.buzzer = false := by
  have start : Steady 0 s₀ := Steady.of_reached reached normal (by decide)
  have holds := start.run_induct
    (P := fun k s => (s.buzzer = false ∧ s.toSilence ≤ 3) ∨ s.toSilence + k ≤ 5)
    ?_ ?_ ?_ ran keeps
  · rcases holds with ⟨off, -⟩ | early
    · exact off
    · have positive : 1 ≤ s.toSilence := by
        unfold AlarmState.toSilence
        split <;> omega
      omega
  · right
    unfold AlarmState.toSilence
    split <;> omega
  · rintro k s tasks (⟨off, near⟩ | early) kept
    · exact Or.inl ⟨kept.trans off, near⟩
    · exact Or.inr early
  · intro k s steady before
    rcases AlarmState.alarmsTask_normal steady.state with ⟨here, far, off⟩ | ⟨closer, kept⟩
    · exact Or.inl ⟨off, far.le⟩
    · rcases before with ⟨off, near⟩ | early
      · exact Or.inl ⟨(kept near).trans off, by omega⟩
      · exact Or.inr (by omega)

/-- A warning that ends between the toggle and the write of the level 1. -/
theorem quiet_in_state_zero_ending :
    let as := [.task (.read [49]), .alarms, .alarms, .task (.read [48])]
    let bs : List AlarmAction :=
      [.alarms, .alarms, .task (.read []), .alarms, .alarms, .task (.read [48, 48]), .alarms]
    ∃ s₀ s, run AlarmState.step AlarmState.init as = some s₀ ∧
      run AlarmState.step s₀ bs = some s ∧ s₀.held = some true ∧ s.buzzer = false := by
  intro as bs
  have keeps : Keeps 0 bs := by
    intro byte rest mem
    simp only [bs, List.mem_cons, AlarmAction.task.injEq, Action.read.injEq, reduceCtorEq,
      List.not_mem_nil, List.cons.injEq, false_or, or_false] at mem
    rw [mem.1]
    rfl
  exact ⟨_, _, rfl, rfl, rfl, quiet_in_state_zero as _ rfl rfl bs _ rfl keeps (by decide)⟩

/-- What the alarm task looks at and sets in state 1. -/
structure Beeper where
  pc : AlarmsPc
  buzzerStatus : Bool
  buzzer : Bool

def AlarmState.beeper (s : AlarmState) : Beeper := ⟨s.pc, s.buzzerStatus, s.buzzer⟩

/-- One statement of the alarm task in state 1. -/
def Beeper.beat (b : Beeper) : Beeper :=
  match b.pc with
  | .switching => { b with pc := .toggle }
  | .silence => { b with buzzer := false, pc := .delay 5 }
  | .toggle => { b with buzzerStatus := !b.buzzerStatus, pc := .sound }
  | .sound => { b with buzzer := b.buzzerStatus, pc := .delay 80 }
  | .delay _ => { b with pc := .switching }

theorem AlarmState.beeper_alarmsTask {s : AlarmState}
    (warning : s.tasks.reader.currentState = 1) : s.alarmsTask.beeper = s.beeper.beat := by
  obtain ⟨tasks, pc, buzzerStatus⟩ := s
  cases pc with
  | switching =>
      simp only at warning
      simp [alarmsTask, beeper, buzzer, Beeper.beat, warning]
  | silence => rfl
  | toggle => rfl
  | sound => rfl
  | delay ms => rfl

/-- The pin shows `buzzer_status`, but for the statement after the toggle. -/
def Beeper.Settled (b : Beeper) : Prop :=
  match b.pc with
  | .silence => False
  | .sound => b.buzzer = !b.buzzerStatus
  | _ => b.buzzer = b.buzzerStatus

theorem Beeper.settled_five (b : Beeper) : (beat^[5] b).Settled := by
  obtain ⟨pc, buzzerStatus, buzzer⟩ := b
  cases pc with
  | toggle => exact (Bool.not_not _).symm
  | _ => rfl

theorem Beeper.Settled.beat {b : Beeper} (h : b.Settled) : b.beat.Settled := by
  obtain ⟨pc, buzzerStatus, buzzer⟩ := b
  cases pc with
  | silence => exact h.elim
  | toggle => exact h.trans (Bool.not_not _).symm
  | sound => rfl
  | switching => exact h
  | delay ms => exact h

/-- One period of four statements turns the level over. -/
theorem Beeper.Settled.four {b : Beeper} (h : b.Settled) :
    (Beeper.beat^[4] b).buzzer = !b.buzzer := by
  obtain ⟨pc, buzzerStatus, buzzer⟩ := b
  cases pc with
  | silence => exact h.elim
  | toggle => exact congrArg not h.symm
  | sound => exact (congrArg not h).trans (Bool.not_not _) |>.symm
  | switching => exact congrArg not h.symm
  | delay ms => exact congrArg not h.symm

theorem Steady.beeper {s₀ s : AlarmState} {bs : List AlarmAction} (start : Steady 1 s₀)
    (ran : run AlarmState.step s₀ bs = some s) (keeps : Keeps 1 bs) :
    s.beeper = Beeper.beat^[statements bs] s₀.beeper := by
  refine start.run_induct (P := fun k s => s.beeper = Beeper.beat^[k] s₀.beeper) rfl ?_ ?_ ran keeps
  · intro k s tasks same kept
    rw [← same]
    exact congrArg (Beeper.mk s.pc s.buzzerStatus) kept
  · intro k s steady same
    rw [AlarmState.beeper_alarmsTask steady.state, same, Function.iterate_succ_apply']

/-- In state 1, from the fifth statement of the alarm task on, every four statements
turn the level over, wherever the alarm task was and whatever runs beside it. -/
theorem beeps_in_state_one (as : List AlarmAction) (s₀ : AlarmState)
    (reached : run AlarmState.step AlarmState.init as = some s₀)
    (warning : s₀.tasks.reader.currentState = 1) (bs cs : List AlarmAction) (s s' : AlarmState)
    (ran : run AlarmState.step s₀ bs = some s) (long : 5 ≤ statements bs)
    (goes : run AlarmState.step s cs = some s') (period : statements cs = 4)
    (keeps : Keeps 1 (bs ++ cs)) : s'.buzzer = !s.buzzer := by
  have start : Steady 1 s₀ := Steady.of_reached reached warning (by decide)
  have first : s.beeper = Beeper.beat^[statements bs] s₀.beeper :=
    start.beeper ran fun byte rest mem => keeps byte rest (List.mem_append_left _ mem)
  have both : s'.beeper = Beeper.beat^[statements (bs ++ cs)] s₀.beeper :=
    start.beeper (run_append_eq_some.mpr ⟨s, ran, goes⟩) keeps
  have settled : s.beeper.Settled := by
    rw [first]
    exact iterate_settles Beeper.settled_five (fun _ => Beeper.Settled.beat) _ long
  have turned : s'.beeper = Beeper.beat^[4] s.beeper := by
    rw [both, first, ← Function.iterate_add_apply, ← period]
    simp only [statements, List.countP_append, Nat.add_comm]
  have level := settled.four
  rw [← turned] at level
  exact level

/-- From the first 1 on: up after three statements, down after seven, up after eleven. -/
theorem beeps_in_state_one_warned :
    let as := [.task (.read [49])]
    let bs : List AlarmAction := List.replicate 7 .alarms
    let cs : List AlarmAction := [.alarms, .task (.read [49]), .alarms, .alarms, .alarms]
    ∃ s₀ s s', run AlarmState.step AlarmState.init as = some s₀ ∧
      run AlarmState.step s₀ bs = some s ∧ run AlarmState.step s cs = some s' ∧
      s.buzzer = false ∧ s'.buzzer = !s.buzzer := by
  intro as bs cs
  have keeps : Keeps 1 (bs ++ cs) := by
    intro byte rest mem
    simp [bs, cs] at mem
    rw [mem.1]
    rfl
  exact ⟨_, _, _, rfl, rfl, rfl, rfl,
    beeps_in_state_one as _ rfl rfl bs cs _ _ rfl (by decide) rfl (by decide) keeps⟩

end Adas.Esp
