import Mathlib.Tactic.Linarith
import Adas.Esp.Tasks
import Adas.Lib.Interleave

/-!
The two tasks with every driver call a step of its own, and no lock.

`atomicStep` interleaves the data callback and the UART task call by call;
`segments_refine` proves that every run of whole segments (`Adas.Esp.Tasks`) is
one of its schedules. The motor functions drop the opposite side of a bridge
before they enable one, which keeps the two sides apart as long as the other
task does not re-enable the dropped side meanwhile: `bridge` states what each
call needs and leaves for the stable facts of that argument, and
`noShootThrough_iff` is its result, with the exact schedules that are safe.
`overtaken` is one that is not.
-/

namespace Adas.Esp

open Lib

/-! ### The atomic steps -/

/-- Where the data callback is: before its test of `current_state`, or with
motor calls left to make. It is done when none is left. -/
inductive Callback where
  | testing (xAxis yAxis : Int8)
  | calling (calls : List Call)
  deriving DecidableEq, Repr

/-- The globals, the outputs, and how far each task is. -/
structure Tasks where
  reader : Reader
  xAxis : Int8
  yAxis : Int8
  outputs : Outputs
  callback : Callback
  brake : List Call

/-- The two tasks at a point where the callback is done and the UART task blocks. -/
def EspState.tasks (e : EspState) : Tasks :=
  ⟨e.reader, e.xAxis, e.yAxis, e.outputs, .calling [], e.brake⟩

def Tasks.init : Tasks := EspState.init.tasks

inductive Action where
  /-- The data event: the axes are stored, `mcpwm_motor_control` is called. -/
  | dataInd (ind : DataInd)
  /-- The test of `current_state` in `mcpwm_motor_control`. -/
  | test
  /-- The next call of the callback. -/
  | motorCall
  /-- A read: the assignment of `current_state`. -/
  | read (data : List UInt8)
  /-- The next call of `emergency_brake`. -/
  | brakeCall

/-- One atomic step, by whichever task the action belongs to. -/
def atomicStep (s : Tasks) : Action → Option Tasks
  | .dataInd ind =>
      match s.callback with
      | .calling [] =>
          some { s with
            xAxis := ind.xAxis
            yAxis := ind.yAxis
            callback := .testing ind.xAxis ind.yAxis }
      | _ => none
  | .test =>
      match s.callback with
      | .testing x y =>
          some { s with callback := .calling (mcpwmMotorControl s.reader.currentState x y) }
      | .calling _ => none
  | .motorCall =>
      match s.callback with
      | .calling (c :: calls) =>
          some { s with outputs := c.exec s.outputs, callback := .calling calls }
      | _ => none
  | .read data =>
      if s.brake = [] then
        some { s with
          reader := (s.reader.receive data).1
          brake := if (s.reader.receive data).2 then emergencyBrake else [] }
      else none
  | .brakeCall =>
      match s.brake with
      | c :: calls => some { s with outputs := c.exec s.outputs, brake := calls }
      | [] => none

/-- What an atomic step can do, one line each. -/
theorem atomicStep_cases {s s' : Tasks} {a : Action} (h : atomicStep s a = some s') :
    (∃ ind, a = .dataInd ind ∧ s.callback = .calling [] ∧
      s' = { s with xAxis := ind.xAxis, yAxis := ind.yAxis,
                    callback := .testing ind.xAxis ind.yAxis }) ∨
    (∃ x y, a = .test ∧ s.callback = .testing x y ∧
      s' = { s with callback := .calling (mcpwmMotorControl s.reader.currentState x y) }) ∨
    (∃ c calls, a = .motorCall ∧ s.callback = .calling (c :: calls) ∧
      s' = { s with outputs := c.exec s.outputs, callback := .calling calls }) ∨
    (∃ data, a = .read data ∧ s.brake = [] ∧
      s' = { s with reader := (s.reader.receive data).1,
                    brake := if (s.reader.receive data).2 then emergencyBrake else [] }) ∨
    (∃ c calls, a = .brakeCall ∧ s.brake = c :: calls ∧
      s' = { s with outputs := c.exec s.outputs, brake := calls }) := by
  cases a with
  | dataInd ind =>
      simp only [atomicStep] at h
      split at h
      · exact Or.inl ⟨ind, rfl, ‹_›, (Option.some.inj h).symm⟩
      · cases h
  | test =>
      simp only [atomicStep] at h
      split at h
      · exact Or.inr (Or.inl ⟨_, _, rfl, ‹_›, (Option.some.inj h).symm⟩)
      · cases h
  | motorCall =>
      simp only [atomicStep] at h
      split at h
      · exact Or.inr (Or.inr (Or.inl ⟨_, _, rfl, ‹_›, (Option.some.inj h).symm⟩))
      · cases h
  | read data =>
      simp only [atomicStep] at h
      split at h
      · exact Or.inr (Or.inr (Or.inr (Or.inl ⟨data, rfl, ‹_›, (Option.some.inj h).symm⟩)))
      · cases h
  | brakeCall =>
      simp only [atomicStep] at h
      split at h
      · exact Or.inr (Or.inr (Or.inr (Or.inr ⟨_, _, rfl, ‹_›, (Option.some.inj h).symm⟩)))
      · cases h

/-! ### Segments are schedules -/

/-- A callback left alone makes all its calls. -/
theorem run_motorCalls (s : Tasks) (calls : List Call) :
    run atomicStep { s with callback := .calling calls } (List.replicate calls.length .motorCall) =
      some { s with outputs := runCalls calls s.outputs, callback := .calling [] } := by
  induction calls generalizing s with
  | nil => rfl
  | cons c calls ih => exact ih { s with outputs := c.exec s.outputs }

/-- So does the UART task. -/
theorem run_brakeCalls (s : Tasks) (made rest : List Call) :
    run atomicStep { s with brake := made ++ rest } (List.replicate made.length .brakeCall) =
      some { s with outputs := runCalls made s.outputs, brake := rest } := by
  induction made generalizing s with
  | nil => rfl
  | cons c made ih => exact ih { s with outputs := c.exec s.outputs }

/-- The UART task running to its next blocking point. -/
theorem run_runUart (e : EspState) (calls : List Call) :
    ∃ as, run atomicStep { e.tasks with brake := calls } as = some (e.runUart calls).tasks := by
  obtain ⟨made, split, ran⟩ := runToDelay_eq calls e.outputs
  refine ⟨List.replicate made.length .brakeCall, ?_⟩
  rw [split, run_brakeCalls, ← split]
  simp [EspState.tasks, EspState.runUart, ran]

/-- Every segment is a schedule of atomic steps. -/
theorem segment_refines {e e' : EspState} {seg : Segment} (h : step e seg = some e') :
    ∃ as, run atomicStep e.tasks as = some e'.tasks := by
  rcases step_cases h with ⟨ind, rfl, rfl⟩ | ⟨data, rfl, idle, rfl⟩ | ⟨rfl, -, rfl⟩
  · let calls := mcpwmMotorControl e.reader.currentState ind.xAxis ind.yAxis
    refine ⟨.dataInd ind :: .test :: List.replicate calls.length .motorCall, ?_⟩
    exact run_motorCalls { e.tasks with xAxis := ind.xAxis, yAxis := ind.yAxis } calls
  · cases brakes : (e.reader.receive data).2 with
    | true =>
        obtain ⟨as, ran⟩ :=
          run_runUart { e with reader := (e.reader.receive data).1 } emergencyBrake
        refine ⟨.read data :: as, ?_⟩
        rw [EspState.read_of_brakes brakes, ← ran]
        simp [run, atomicStep, EspState.tasks, idle, brakes]
    | false =>
        refine ⟨[.read data], ?_⟩
        rw [EspState.read_of_not_brakes brakes]
        simp [run, atomicStep, EspState.tasks, idle, brakes]
  · exact run_runUart e e.brake

/-- Every run of segments is a schedule of atomic steps. -/
theorem segments_refine {as : List Segment} {e : EspState}
    (h : run step EspState.init as = some e) :
    ∃ bs, run atomicStep Tasks.init bs = some e.tasks := by
  obtain ⟨bs, s, ran, rfl⟩ := run_simulation (R := fun e s => s = EspState.tasks e)
    (by
      intro e seg e' s related stepped
      obtain ⟨cs, ran⟩ := segment_refines stepped
      exact ⟨cs, _, related ▸ ran, rfl⟩) (t := Tasks.init) rfl h
  exact ⟨bs, ran⟩

/-! ### The stable facts -/

/-- What the motor functions rely on while they are interrupted. -/
inductive Fact where
  /-- The argument is positive. -/
  | positive (duty : ℚ)
  /-- The duty stored for the operator is positive. -/
  | armed (t : Timer) (o : Opr)
  /-- The operator is forced low unless its duty is positive. -/
  | settled (t : Timer) (o : Opr)
  /-- One operator of the timer is forced low. -/
  | oneLow (t : Timer)
  /-- One operator of the timer is forced low, or neither has a duty yet. -/
  | apart (t : Timer)

def Fact.holds : Fact → Outputs → Prop
  | .positive duty, _ => 0 < duty
  | .armed t o, out => 0 < (out.mcpwm t o).duty
  | .settled t o, out => (out.mcpwm t o).mode = .low ∨ 0 < (out.mcpwm t o).duty
  | .oneLow t, out => ∃ o, (out.mcpwm t o).mode = .low
  | .apart t, out => (∃ o, (out.mcpwm t o).mode = .low) ∨ ∀ o, (out.mcpwm t o).duty = 0

def Call.pre : Call → Set Fact
  | .setDuty t _ duty => {.positive duty, .oneLow t}
  | .setDutyType t o => {.armed t o, .settled t o.other}
  | _ => ∅

def Call.post : Call → Set Fact
  | .setSignalLow t o => {.settled t o, .oneLow t}
  | .setDuty t o _ => {.armed t o}
  | _ => ∅

/-- A call that re-enables an operator finds the opposite one forced low. -/
def Call.Guarded (c : Call) (out : Outputs) : Prop :=
  ∀ t o, c = .setDutyType t o → (out.mcpwm t o.other).mode = .low

/-- Only `mcpwm_set_duty` changes a duty. -/
theorem Call.exec_duty {c : Call} {t : Timer} {o : Opr} (keeps : ∀ duty, c ≠ .setDuty t o duty)
    (out : Outputs) : ((c.exec out).mcpwm t o).duty = (out.mcpwm t o).duty := by
  cases c with
  | setDuty t' o' duty =>
      have other : ¬ (t = t' ∧ o = o') := by
        rintro ⟨rfl, rfl⟩
        exact keeps duty rfl
      rw [exec, Outputs.modify_of_ne other]
  | setSignalLow t' o' => simp only [exec, Outputs.modify]; split <;> rfl
  | setDutyType t' o' => simp only [exec, Outputs.modify]; split <;> rfl
  | gpioSetLevel level => rfl
  | vTaskDelay ms => rfl

/-- The only fact that needs the guard: a re-enabled operator leaves the other
one low. -/
theorem oneLow_exec {c : Call} {out : Outputs} {t : Timer} (guarded : c.Guarded out)
    (h : (Fact.oneLow t).holds out) : (Fact.oneLow t).holds (c.exec out) := by
  obtain ⟨o, low⟩ := h
  by_cases enables : c = .setDutyType t o
  · refine ⟨o.other, Call.exec_low ?_ (guarded t o enables)⟩
    rw [enables]
    exact fun same => Opr.other_ne o (Call.setDutyType.inj same).2.symm
  · exact ⟨o, Call.exec_low enables low⟩

section Preservation

variable {c : Call} {out : Outputs} {t : Timer} (met : ∀ f ∈ c.pre, f.holds out)

include met

theorem armed_exec {o : Opr} (h : 0 < (out.mcpwm t o).duty) :
    0 < ((c.exec out).mcpwm t o).duty := by
  by_cases sets : ∃ duty, c = .setDuty t o duty
  · obtain ⟨duty, rfl⟩ := sets
    have positive : 0 < duty := met (.positive duty) (Or.inl rfl)
    simpa [Call.exec] using positive
  · rwa [Call.exec_duty (fun duty same => sets ⟨duty, same⟩)]

/-- Re-enabling an operator that is not armed would unsettle it. -/
theorem settled_exec {o : Opr} (h : (Fact.settled t o).holds out) :
    (Fact.settled t o).holds (c.exec out) := by
  rcases h with low | armed
  · by_cases enables : c = .setDutyType t o
    · subst enables
      exact Or.inr (armed_exec met (met (.armed t o) (Or.inl rfl)))
    · exact Or.inl (Call.exec_low enables low)
  · exact Or.inr (armed_exec met armed)

theorem apart_exec (guarded : c.Guarded out) (h : (Fact.apart t).holds out) :
    (Fact.apart t).holds (c.exec out) := by
  rcases h with low | unset
  · exact Or.inl (oneLow_exec guarded low)
  · by_cases sets : ∃ o duty, c = .setDuty t o duty
    · obtain ⟨o, duty, rfl⟩ := sets
      exact Or.inl (oneLow_exec guarded (met (.oneLow t) (Or.inr rfl)))
    · refine Or.inr fun o => ?_
      rw [Call.exec_duty (fun duty same => sets ⟨o, duty, same⟩), unset o]

end Preservation

/-- The driver calls, with the facts the motor functions use. -/
def bridge : Discipline Outputs Call Fact where
  exec := Call.exec
  holds := Fact.holds
  allowed := Call.Guarded
  pre := Call.pre
  post := Call.post
  establishes := by
    intro c out _ met f new
    cases c with
    | setSignalLow t o =>
        rcases new with rfl | rfl
        · exact Or.inl (by simp [Call.exec])
        · exact ⟨o, by simp [Call.exec]⟩
    | setDuty t o duty =>
        obtain rfl := new
        have positive : 0 < duty := met (.positive duty) (Or.inl rfl)
        simpa [Fact.holds, Call.exec] using positive
    | setDutyType t o => exact new.elim
    | gpioSetLevel level => exact new.elim
    | vTaskDelay ms => exact new.elim
  preserves := by
    intro c out guarded met f h
    cases f with
    | positive duty => exact h
    | armed t o => exact armed_exec met h
    | settled t o => exact settled_exec met h
    | oneLow t => exact oneLow_exec guarded h
    | apart t => exact apart_exec met guarded h

/-! ### The motor functions keep the discipline -/

/-- Drop the opposite side, store the duty, enable. -/
theorem drive_scripted (t : Timer) (o : Opr) {duty : ℚ} (positive : 0 < duty) :
    bridge.Scripted bridge.always
      [.setSignalLow t o.other, .setDuty t o duty, .setDutyType t o] := by
  have known : Fact.positive duty ∈ bridge.always := fun _ => positive
  refine ⟨Set.empty_subset _, ?_, ?_, trivial⟩
  · rintro f (rfl | rfl)
    · exact Or.inl known
    · exact Or.inr (Or.inr rfl)
  · rintro f (rfl | rfl)
    · exact Or.inr rfl
    · exact Or.inl (Or.inr (Or.inl rfl))

theorem brushedMotorForward_scripted (t : Timer) {dutyCycle : ℚ} (positive : 0 < dutyCycle) :
    bridge.Scripted bridge.always (brushedMotorForward t dutyCycle) := drive_scripted t .a positive

theorem brushedMotorBackward_scripted (t : Timer) {dutyCycle : ℚ} (positive : 0 < dutyCycle) :
    bridge.Scripted bridge.always (brushedMotorBackward t dutyCycle) := drive_scripted t .b positive

theorem brushedMotorStop_scripted (t : Timer) :
    bridge.Scripted bridge.always (brushedMotorStop t) :=
  ⟨Set.empty_subset _, Set.empty_subset _, trivial⟩

theorem emergencyBrake_scripted : bridge.Scripted bridge.always emergencyBrake := by
  have free : ∀ c : Call, c.pre = ∅ → bridge.Scripted bridge.always [c] := by
    intro c none
    exact ⟨(show bridge.pre c = ∅ from none) ▸ Set.empty_subset _, trivial⟩
  have half : (0 : ℚ) < 50 := by norm_num
  have stop := (brushedMotorStop_scripted .timer0).append (brushedMotorStop_scripted .timer1)
  have back := (brushedMotorBackward_scripted .timer0 half).append
    (brushedMotorBackward_scripted .timer1 half)
  exact (free (.gpioSetLevel true) rfl).append <| stop.append <| back.append <|
    (free (.vTaskDelay 120) rfl).append <| stop.append <|
    (free (.vTaskDelay 880) rfl).append (free (.gpioSetLevel false) rfl)

/-- Beyond the dead zone the duties are positive. -/
theorem mcpwmMotorControl_scripted (currentState : UInt8) (xAxis yAxis : Int8) :
    bridge.Scripted bridge.always (mcpwmMotorControl currentState xAxis yAxis) := by
  have positive : ∀ z : ℤ, z ≠ 0 → (0 : ℚ) < z.natAbs := by
    intro z nonzero
    exact Nat.cast_pos.mpr (Int.natAbs_pos.mpr nonzero)
  have stop := (brushedMotorStop_scripted .timer0).append (brushedMotorStop_scripted .timer1)
  have both : ∀ d d' : ℚ, 0 < d → 0 < d' → bridge.Scripted bridge.always
      (brushedMotorForward .timer0 d ++ brushedMotorForward .timer1 d') := by
    intro d d' h h'
    exact (brushedMotorForward_scripted .timer0 h).append (brushedMotorForward_scripted .timer1 h')
  have back : ∀ d : ℚ, 0 < d → bridge.Scripted bridge.always
      (brushedMotorBackward .timer0 d ++ brushedMotorBackward .timer1 d) := by
    intro d h
    exact (brushedMotorBackward_scripted .timer0 h).append (brushedMotorBackward_scripted .timer1 h)
  simp only [mcpwmMotorControl]
  split
  · split
    · exact back _ (positive _ (by omega))
    · exact stop
  split
  · exact both _ _ (positive _ (by omega)) (div_pos (positive _ (by omega)) (by norm_num))
  split
  · exact both _ _ (div_pos (positive _ (by omega)) (by norm_num)) (positive _ (by omega))
  split
  · exact both _ _ (positive _ (by omega)) (positive _ (by omega))
  split
  · exact back _ (positive _ (by omega))
  · exact stop

/-! ### Runs -/

/-- The driver call an action makes. -/
def Tasks.call? (s : Tasks) : Action → Option Call
  | .motorCall =>
      match s.callback with
      | .calling (c :: _) => some c
      | _ => none
  | .brakeCall => s.brake.head?
  | _ => none

/-- An action that makes a call makes it next in its task's list. -/
theorem Tasks.call?_eq_some {s : Tasks} {a : Action} {c : Call} (makes : s.call? a = some c) :
    (∃ calls, a = .motorCall ∧ s.callback = .calling (c :: calls)) ∨
    (∃ calls, a = .brakeCall ∧ s.brake = c :: calls) := by
  cases a with
  | motorCall =>
      simp only [call?] at makes
      split at makes
      · rename_i calls here
        exact Or.inl ⟨calls, rfl, Option.some.inj makes ▸ here⟩
      · cases makes
  | brakeCall =>
      obtain ⟨calls, here⟩ := List.head?_eq_some_iff.mp makes
      exact Or.inr ⟨calls, rfl, here⟩
  | dataInd ind => cases makes
  | test => cases makes
  | read data => cases makes

/-- Both sides of a timer's bridge conduct. -/
def ShootThrough (out : Outputs) (t : Timer) : Prop :=
  (out.mcpwm t .a).Driven ∧ (out.mcpwm t .b).Driven

instance (out : Outputs) (t : Timer) : Decidable (ShootThrough out t) := by
  unfold ShootThrough
  infer_instance

/-- No state of the schedule has both sides of a bridge conducting. -/
def NoShootThrough (as : List Action) : Prop :=
  ∀ pre s, pre <+: as → run atomicStep Tasks.init pre = some s → ∀ t, ¬ ShootThrough s.outputs t

/-- Every `mcpwm_set_duty_type` of the schedule finds the opposite operator
forced low. -/
def EnablesGuarded (as : List Action) : Prop :=
  ∀ pre a s c, pre ++ [a] <+: as → run atomicStep Tasks.init pre = some s →
    s.call? a = some c → c.Guarded s.outputs

/-- Both tasks are somewhere in their scripts, and no bridge is closed. -/
structure Disciplined (s : Tasks) : Prop where
  callback : ∀ calls, s.callback = .calling calls → bridge.Ready s.outputs calls
  brake : bridge.Ready s.outputs s.brake
  apart : ∀ t, (Fact.apart t).holds s.outputs

theorem disciplined_init : Disciplined Tasks.init where
  callback calls h := by
    cases h
    exact Discipline.ready_nil _
  brake := Discipline.ready_nil _
  apart _ := Or.inr fun _ => rfl

theorem Disciplined.step {s s' : Tasks} {a : Action} (h : Disciplined s)
    (stepped : atomicStep s a = some s')
    (guarded : ∀ c, s.call? a = some c → c.Guarded s.outputs) : Disciplined s' := by
  rcases atomicStep_cases stepped with ⟨ind, rfl, -, rfl⟩ | ⟨x, y, rfl, -, rfl⟩ |
    ⟨c, calls, rfl, here, rfl⟩ | ⟨data, rfl, -, rfl⟩ | ⟨c, calls, rfl, here, rfl⟩
  · refine ⟨?_, h.brake, h.apart⟩
    intro calls same
    cases same
  · refine ⟨?_, h.brake, h.apart⟩
    intro calls same
    cases same
    exact (mcpwmMotorControl_scripted _ x y).ready _
  · have ready := h.callback _ here
    have allowed : c.Guarded s.outputs := guarded c (by simp [Tasks.call?, here])
    refine ⟨?_, h.brake.other allowed ready.pre_holds,
      fun t => apart_exec ready.pre_holds allowed (h.apart t)⟩
    intro calls' same
    cases same
    exact ready.next allowed
  · refine ⟨h.callback, ?_, h.apart⟩
    cases (s.reader.receive data).2 with
    | true => exact emergencyBrake_scripted.ready _
    | false => exact Discipline.ready_nil _
  · have ready : bridge.Ready s.outputs (c :: calls) := here ▸ h.brake
    have allowed : c.Guarded s.outputs := guarded c (by simp [Tasks.call?, here])
    exact ⟨fun calls' same => (h.callback calls' same).other allowed ready.pre_holds,
      ready.next allowed, fun t => apart_exec ready.pre_holds allowed (h.apart t)⟩

theorem Disciplined.safe {s : Tasks} (h : Disciplined s) (t : Timer) :
    ¬ ShootThrough s.outputs t := by
  rintro ⟨forward, reverse⟩
  rcases h.apart t with ⟨o, low⟩ | unset
  · cases o with
    | a => exact not_driven_of_low low forward
    | b => exact not_driven_of_low low reverse
  · exact absurd (unset .a ▸ forward.2) (lt_irrefl 0)

/-- A call makes its step, and the facts it needs hold. -/
theorem Disciplined.makes {s : Tasks} {a : Action} {c : Call} (h : Disciplined s)
    (makes : s.call? a = some c) :
    (∃ s', atomicStep s a = some s' ∧ s'.outputs = c.exec s.outputs) ∧
      ∀ f ∈ c.pre, f.holds s.outputs := by
  rcases Tasks.call?_eq_some makes with ⟨calls, rfl, here⟩ | ⟨calls, rfl, here⟩
  · exact ⟨by simp [atomicStep, here], (h.callback _ here).pre_holds⟩
  · exact ⟨by simp [atomicStep, here], (here ▸ h.brake : bridge.Ready _ (c :: calls)).pre_holds⟩

/-- An unguarded call closes the bridge at once: both duties are positive. -/
theorem shootThrough_of_unguarded {c : Call} {out : Outputs} (met : ∀ f ∈ c.pre, f.holds out)
    (unguarded : ¬ c.Guarded out) : ∃ t, ShootThrough (c.exec out) t := by
  simp only [Call.Guarded, not_forall] at unguarded
  obtain ⟨t, o, rfl, high⟩ := unguarded
  have armed : 0 < (out.mcpwm t o).duty := met (.armed t o) (Or.inl rfl)
  have settled : (Fact.settled t o.other).holds out := met _ (Or.inr rfl)
  have enabled : (((Call.setDutyType t o).exec out).mcpwm t o).Driven := by
    simpa [Call.exec, Channel.Driven] using armed
  have opposite : (((Call.setDutyType t o).exec out).mcpwm t o.other).Driven := by
    rw [Call.exec, Outputs.modify_of_ne (fun same => Opr.other_ne o same.2)]
    refine ⟨?_, settled.resolve_left high⟩
    cases mode : (out.mcpwm t o.other).mode with
    | low => exact absurd mode high
    | pwm => rfl
  cases o with
  | a => exact ⟨t, enabled, opposite⟩
  | b => exact ⟨t, opposite, enabled⟩

theorem EnablesGuarded.mono {as bs : List Action} (guarded : EnablesGuarded bs)
    (within : as <+: bs) : EnablesGuarded as :=
  fun pre a s c inside => guarded pre a s c (inside.trans within)

theorem disciplined_of_guarded {as : List Action} {s : Tasks}
    (reached : run atomicStep Tasks.init as = some s) (guarded : EnablesGuarded as) :
    Disciplined s := by
  induction as using List.reverseRecOn generalizing s with
  | nil =>
      cases reached
      exact disciplined_init
  | append_singleton as a ih =>
      obtain ⟨m, before, stepped⟩ := run_snoc_eq_some.mp reached
      exact (ih before (guarded.mono (List.prefix_append _ _))).step stepped fun c =>
        guarded as a m c (List.prefix_refl _) before

/-- A schedule is free of shoot-through exactly when every enable finds the
opposite operator still forced low. -/
theorem noShootThrough_iff (as : List Action) : NoShootThrough as ↔ EnablesGuarded as := by
  constructor
  · intro safe
    induction as using List.reverseRecOn with
    | nil => exact fun pre a s c within => absurd within (by simp)
    | append_singleton as a ih =>
        have guarded := ih fun pre s within => safe pre s (within.trans (List.prefix_append _ _))
        intro pre b s c within reached makes
        rcases List.prefix_concat_iff.mp within with whole | inside
        · obtain ⟨rfl, rfl⟩ := List.append_singleton_inj.mp whole
          -- Up to here the schedule is guarded, so an unguarded call shows at once.
          obtain ⟨⟨s', stepped, outputs⟩, met⟩ :=
            (disciplined_of_guarded reached guarded).makes makes
          by_contra unguarded
          obtain ⟨t, closed⟩ := shootThrough_of_unguarded met unguarded
          exact safe _ s' (List.prefix_refl _) (run_snoc_eq_some.mpr ⟨s, reached, stepped⟩) t
            (outputs ▸ closed)
        · exact guarded pre b s c inside reached makes
  · intro guarded pre s within reached t
    exact (disciplined_of_guarded reached (guarded.mono within)).safe t

/-- Full speed ahead, tested in state 0 and interrupted before its last call on
the left motor; the ECU's 2 then runs the brake up to its reverse drive of the
same motor. -/
def overtaken : List Action :=
  [.dataInd (DataInd.ofBytes [48, 50, 48, 48, 51, 48, 48]), .test, .motorCall, .motorCall,
    .read [50, 95, 55]] ++ List.replicate 8 .brakeCall ++ [.motorCall]

/-- The interrupted callback enables forward drive against the brake. -/
theorem shoot_through_overtaken : ¬ NoShootThrough overtaken :=
  fun safe => safe overtaken _ (List.prefix_refl _) rfl .timer0 (by decide +kernel)

end Adas.Esp
