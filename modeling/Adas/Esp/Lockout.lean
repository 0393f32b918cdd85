import Adas.Esp.Bridge

/-!
The lockout, call by call.

When every data callback runs as a whole, state 2 keeps both motors from driving
forward (`Adas.Esp.Tasks`). With the two tasks interleaved call by call there is one
way around it: a callback that tested `current_state` before the brake began, and
enables a forward operator after the brake has forced it low. `lockout_iff` says that
there is no other.
-/

namespace Adas.Esp

open Lib

/-- Every byte that a read finds first says 2. -/
def KeepsBraking (bs : List Action) : Prop :=
  ∀ byte rest, .read (byte :: rest) ∈ bs → byte - 48 = 2

/-- The call with which the brake first forces a motor's forward operator low is made. -/
def Forced (t : Timer) (brake : List Call) : Prop :=
  ∃ made, emergencyBrake = made ++ brake ∧ .setSignalLow t .a ∈ made

/-- The callback is going to enable a motor's forward operator: it tested
`current_state` before. -/
def Stale (t : Timer) (s : Tasks) : Prop :=
  ∃ calls, s.callback = .calling calls ∧ .setDutyType t .a ∈ calls

/-- What stays, from the read that begins the brake on. -/
structure Barred (t : Timer) (s : Tasks) : Prop where
  braking : s.reader.currentState = 2
  fresh : ¬ Stale t s
  brake : ∃ made, emergencyBrake = made ++ s.brake ∧
    (.setSignalLow t .a ∈ made → (s.outputs.mcpwm t .a).mode = .low)

theorem not_stale_of_noForward {t : Timer} {s : Tasks}
    (safe : ∀ calls, s.callback = .calling calls → .setDutyType t .a ∉ calls) : ¬ Stale t s := by
  rintro ⟨calls, here, mem⟩
  exact safe calls here mem

theorem Barred.step {t : Timer} {s s' : Tasks} {a : Action} (h : Barred t s)
    (stepped : atomicStep s a = some s')
    (same : ∀ byte rest, a = .read (byte :: rest) → byte - 48 = 2) : Barred t s' := by
  obtain ⟨made, whole, low⟩ := h.brake
  rcases atomicStep_cases stepped with ⟨ind, rfl, idle, rfl⟩ | ⟨x, y, rfl, testing, rfl⟩ |
    ⟨c, calls, rfl, here, rfl⟩ | ⟨data, rfl, idle, rfl⟩ | ⟨c, calls, rfl, here, rfl⟩
  · refine ⟨h.braking, not_stale_of_noForward ?_, made, whole, low⟩
    intro calls same
    cases same
  · refine ⟨h.braking, not_stale_of_noForward ?_, made, whole, low⟩
    intro calls same
    cases same
    rw [h.braking]
    exact fun mem => mcpwmMotorControl_noForward x y _ mem t rfl
  · have keeps : c ≠ .setDutyType t .a := by
      rintro rfl
      exact h.fresh ⟨_, here, List.mem_cons_self⟩
    refine ⟨h.braking, not_stale_of_noForward ?_, made, whole,
      fun mem => Call.exec_low keeps (low mem)⟩
    intro calls' same mem
    cases same
    exact h.fresh ⟨_, here, List.mem_cons_of_mem _ mem⟩
  · have stays := Reader.receive_same s.reader data fun byte rest here =>
      (same byte rest (by rw [here])).trans h.braking.symm
    refine ⟨stays.1.trans h.braking, h.fresh, made, ?_, low⟩
    rw [stays.2, whole, idle]
    rfl
  · rw [here] at whole
    have keeps : c ≠ .setDutyType t .a := by
      refine emergencyBrake_noForward c ?_ t
      rw [whole]
      exact List.mem_append_right _ List.mem_cons_self
    refine ⟨h.braking, h.fresh, made ++ [c], by rw [whole, List.append_assoc]; rfl, fun mem => ?_⟩
    rcases List.mem_append.mp mem with before | now
    · exact Call.exec_low keeps (low before)
    · obtain rfl := List.mem_singleton.mp now
      simp [Call.exec]

theorem KeepsBraking.snoc {bs : List Action} {a : Action} (h : KeepsBraking (bs ++ [a])) :
    KeepsBraking bs ∧ ∀ byte rest, a = .read (byte :: rest) → byte - 48 = 2 :=
  ⟨fun byte rest mem => h byte rest (List.mem_append_left _ mem),
    fun byte rest same => h byte rest (by simp [same])⟩

theorem Barred.run {t : Timer} {s s' : Tasks} {bs : List Action} (h : Barred t s)
    (ran : Lib.run atomicStep s bs = some s') (keeps : KeepsBraking bs) : Barred t s' := by
  refine run_induct (P := fun bs s => KeepsBraking bs → Barred t s) (fun _ => h) ?_ ran keeps
  intro bs s a s' before stepped keeps
  obtain ⟨earlier, same⟩ := keeps.snoc
  exact (before earlier).step stepped same

/-- A callback makes its first calls while the brake waits. -/
theorem run_motorCalls_append (s : Tasks) (made rest : List Call) :
    run atomicStep { s with callback := .calling (made ++ rest) }
        (List.replicate made.length .motorCall) =
      some { s with outputs := runCalls made s.outputs, callback := .calling rest } := by
  induction made generalizing s with
  | nil => rfl
  | cons c made ih => exact ih { s with outputs := c.exec s.outputs }

/-- The brake up to the call that forces a motor's forward operator low. -/
def forcing : Timer → List Call
  | .timer0 => [.gpioSetLevel true, .setSignalLow .timer0 .a]
  | .timer1 => .gpioSetLevel true :: brushedMotorStop .timer0 ++ [.setSignalLow .timer1 .a]

theorem forcing_spec (t : Timer) :
    ∃ rest, emergencyBrake = forcing t ++ rest ∧ .setSignalLow t .a ∈ forcing t := by
  cases t with
  | timer0 => exact ⟨_, rfl, by simp [forcing]⟩
  | timer1 => exact ⟨_, rfl, by simp [forcing]⟩

/-- From the brake's first stop of a motor on, and as long as the ECU keeps saying 2,
its forward operator stays low under every interleaving of the calls, exactly when no
callback was about to enable it as the brake began. -/
theorem lockout_iff (s₀ : Tasks) (t : Timer) (braking : s₀.reader.currentState = 2)
    (begins : s₀.brake = emergencyBrake) :
    (∀ bs s, run atomicStep s₀ bs = some s → KeepsBraking bs → Forced t s.brake →
      (s.outputs.mcpwm t .a).mode = .low) ↔ ¬ Stale t s₀ := by
  constructor
  · rintro locked ⟨calls, here, mem⟩
    obtain ⟨before, after, rfl⟩ := List.append_of_mem mem
    obtain ⟨rest, whole, forces⟩ := forcing_spec t
    -- The brake forces the operator low, and then the callback goes on.
    have first := run_brakeCalls s₀ (forcing t) rest
    rw [← whole, ← begins] at first
    have second := run_motorCalls_append
      { s₀ with outputs := runCalls (forcing t) s₀.outputs, brake := rest }
      (before ++ [.setDutyType t .a]) after
    simp only [List.append_assoc, List.singleton_append, ← here] at second
    have low := locked _ _ (run_append_eq_some.mpr ⟨_, first, second⟩)
      (fun byte others inside => by simp at inside) ⟨forcing t, whole, forces⟩
    simp [runCalls, List.foldl_append, Call.exec] at low
  · intro fresh bs s ran keeps forced
    have start : Barred t s₀ := ⟨braking, fresh, [], by rw [begins]; rfl,
      fun mem => absurd mem List.not_mem_nil⟩
    obtain ⟨made, whole, low⟩ := (start.run ran keeps).brake
    obtain ⟨made', whole', forces⟩ := forced
    have same : made = made' := List.append_cancel_right (whole.symm.trans whole')
    exact low (same ▸ forces)

/-- Full speed ahead tested in state 1 and still to be made when the ECU says 2. -/
theorem lockout_iff_stale :
    let as : List Action := [.read [49],
      .dataInd (DataInd.ofBytes [48, 50, 48, 48, 51, 48, 48]), .test, .read [50]]
    ∃ s₀, run atomicStep Tasks.init as = some s₀ ∧
      ¬ ∀ bs s, run atomicStep s₀ bs = some s → KeepsBraking bs → Forced .timer0 s.brake →
        (s.outputs.mcpwm .timer0 .a).mode = .low := by
  intro as
  refine ⟨_, rfl, fun locked => ?_⟩
  refine (lockout_iff _ .timer0 rfl rfl).mp locked ⟨_, rfl, ?_⟩
  decide +kernel

end Adas.Esp
