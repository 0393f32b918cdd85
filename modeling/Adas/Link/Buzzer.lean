import Adas.Link.Pins

/-!
The third task behind the two wires (`buzzer_TASK`, `adas_perception.c`).

It looks at `current_status` once an iteration, with the listener's accesses and
the writer's pin changes anywhere between its statements. `buzzer_follows` is the
response of the whole chain: once the pins show a level and keep showing it, two
accesses of the listener and six statements of the buzzer task are enough for the
pin to say so, whatever state the two were in.
-/

namespace Adas.Link.Pins

open Lib

/-! ### The task -/

/-- The next statement of `buzzer_TASK`. -/
inductive BuzzerPc where
  /-- `switch(current_status)` -/
  | switching
  /-- `case 0`: before `gpio_set_level(GPIO_BUZZER, 0)`. -/
  | low
  /-- `case 1`: before the `if(buzzer_status)`. -/
  | toggle
  /-- In `vTaskDelay(100 / portTICK_PERIOD_MS)`. -/
  | delay100
  /-- Before `buzzer_status = !buzzer_status`. -/
  | flip
  /-- `case 2`: before `gpio_set_level(GPIO_BUZZER, 1)`. -/
  | high
  /-- In `vTaskDelay(5 / portTICK_PERIOD_MS)`. -/
  | delay5
  deriving DecidableEq, Repr

/-- The variables of the task, and its pin. -/
structure Buzzer where
  pc : BuzzerPc
  buzzerStatus : Bool
  gpioBuzzer : Bool
  deriving DecidableEq, Repr

/-- After the statements before its loop. -/
def Buzzer.init : Buzzer := ⟨.switching, false, false⟩

/-- The next statement, with `current_status` as it is. The `switch` has no `default`. -/
def Buzzer.statement (currentStatus : ℕ) (b : Buzzer) : Buzzer :=
  match b.pc with
  | .switching =>
      if currentStatus = 0 then { b with pc := .low }
      else if currentStatus = 1 then { b with pc := .toggle }
      else if currentStatus = 2 then { b with pc := .high }
      else { b with pc := .delay5 }
  | .low => { b with gpioBuzzer := false, pc := .delay5 }
  | .toggle => { b with gpioBuzzer := if b.buzzerStatus then false else true, pc := .delay100 }
  | .delay100 => { b with pc := .flip }
  | .flip => { b with buzzerStatus := !b.buzzerStatus, pc := .delay5 }
  | .high => { b with gpioBuzzer := true, pc := .delay5 }
  | .delay5 => { b with pc := .switching }

/-- The pins with the listener, and the buzzer task. -/
structure ChainState where
  pins : PinState
  buzzer : Buzzer
  deriving DecidableEq

def ChainState.init : ChainState := ⟨PinState.init, Buzzer.init⟩

inductive ChainAction where
  /-- A pin access of the writer or of the listener. -/
  | pin (a : PinAction)
  /-- The next statement of the buzzer task. -/
  | buzzer

def ChainState.step (s : ChainState) : ChainAction → Option ChainState
  | .pin a => (Pins.step s.pins a).map fun pins => { s with pins }
  | .buzzer => some { s with buzzer := s.buzzer.statement s.pins.currentStatus }

theorem ChainState.step_cases {s s' : ChainState} {a : ChainAction} (h : s.step a = some s') :
    (∃ b pins, a = .pin b ∧ Pins.step s.pins b = some pins ∧ s' = { s with pins }) ∨
    (a = .buzzer ∧ s' = { s with buzzer := s.buzzer.statement s.pins.currentStatus }) := by
  cases a with
  | pin b =>
      obtain ⟨pins, stepped, rfl⟩ := Option.map_eq_some_iff.mp h
      exact Or.inl ⟨b, pins, rfl, stepped, rfl⟩
  | buzzer => exact Or.inr ⟨rfl, (Option.some.inj h).symm⟩

/-- The pins do not depend on the buzzer task. -/
theorem ChainState.encodes {as : List ChainAction} {s : ChainState}
    (reached : run ChainState.step ChainState.init as = some s) : Encodes s.pins := by
  refine run_induct (P := fun _ s => Encodes s.pins) encodes_init ?_ reached
  intro as s a s' encodes stepped
  rcases ChainState.step_cases stepped with ⟨b, pins, rfl, moved, rfl⟩ | ⟨rfl, rfl⟩
  · exact encodes.step moved
  · exact encodes

/-! ### A level that stays -/

/-- The pins show level `l`, also through the second write of an update. -/
structure PinState.Shows (l : ℕ) (s : PinState) : Prop where
  encodes : Encodes s
  level : s.level = l
  updating : ∀ dist, s.updating = some dist → alertLevel dist = l

/-- Every distance that the writer goes on to write stands for level `l`. -/
def Showing (l : ℕ) (bs : List ChainAction) : Prop :=
  ∀ dist, .pin (.writeAutobrake dist) ∈ bs → alertLevel dist = l

theorem PinState.Shows.step {l : ℕ} {s s' : PinState} {a : PinAction} (h : s.Shows l)
    (stepped : Pins.step s a = some s')
    (same : ∀ dist, a = .writeAutobrake dist → alertLevel dist = l) : s'.Shows l := by
  have encodes := h.encodes.step stepped
  rcases step_cases stepped with ⟨dist, rfl, -, rfl⟩ | ⟨dist, rfl, updating, rfl⟩ |
    ⟨rfl, -, -, rfl⟩ | ⟨rfl, -, -, rfl⟩ | ⟨rfl, -, rfl⟩
  · refine ⟨encodes, h.level, ?_⟩
    rintro d ⟨⟩
    exact same dist rfl
  · exact ⟨encodes, h.updating dist updating, nofun⟩
  · exact ⟨encodes, h.level, h.updating⟩
  · exact ⟨encodes, h.level, h.updating⟩
  · exact ⟨encodes, h.level, h.updating⟩

theorem PinState.Shows.newest {l : ℕ} {s : PinState} (h : s.Shows l) :
    (s.updating.map alertLevel).getD s.level = l := by
  cases updating : s.updating with
  | none => exact h.level
  | some dist => exact h.updating dist updating

/-- The listener has the level, and is not on its way to a lower one. -/
def PinState.Heard (l : ℕ) (s : PinState) : Prop :=
  s.currentStatus = l ∧ (l = 2 → s.listener = .autobrake)

/-- Its next access sets the level. -/
def PinState.Near (l : ℕ) (s : PinState) : Prop := s.listener = .autobrake ↔ l = 2

/-- A write leaves the listener alone. -/
theorem step_write {s s' : PinState} {a : PinAction} (stepped : Pins.step s a = some s')
    (isWrite : a.IsWrite) : s'.listener = s.listener ∧ s'.currentStatus = s.currentStatus := by
  rcases step_cases stepped with ⟨dist, rfl, -, rfl⟩ | ⟨dist, rfl, -, rfl⟩ |
    ⟨rfl, -, -, rfl⟩ | ⟨rfl, -, -, rfl⟩ | ⟨rfl, -, rfl⟩
  · exact ⟨rfl, rfl⟩
  · exact ⟨rfl, rfl⟩
  · exact isWrite.elim
  · exact isWrite.elim
  · exact isWrite.elim

/-- What an access of the listener does while the pins show `l`. -/
theorem PinState.Shows.access {l : ℕ} {s s' : PinState} {a : PinAction} (h : s.Shows l)
    (stepped : Pins.step s a = some s') (isRead : ¬ a.IsWrite) :
    s'.Heard l ∨ (s'.Near l ∧ ¬ s.Near l ∧ ¬ s.Heard l) := by
  have newest := h.newest
  have bounded : l ≤ 2 := h.level ▸ h.encodes.bounded
  rcases step_cases stepped with ⟨dist, rfl, -, -⟩ | ⟨dist, rfl, -, -⟩ |
    ⟨rfl, idle, high, rfl⟩ | ⟨rfl, idle, low, rfl⟩ | ⟨rfl, reading, rfl⟩
  · exact absurd trivial isRead
  · exact absurd trivial isRead
  · have two : l = 2 := newest.symm.trans (h.encodes.autobrake.mp high)
    exact Or.inl ⟨two.symm, fun _ => idle⟩
  · have other : l ≠ 2 := by
      intro two
      rw [h.encodes.autobrake.mpr (newest.trans two)] at low
      cases low
    by_cases known : s.currentStatus = l
    · exact Or.inl ⟨known, fun two => absurd two other⟩
    · refine Or.inr ⟨?_, ?_, fun heard => known heard.1⟩
      · exact iff_of_false nofun other
      · exact fun near => other (near.mp idle)
  · by_cases two : l = 2
    · refine Or.inr ⟨iff_of_true rfl two, fun near => ?_, fun heard => ?_⟩
      · rw [near.mpr two] at reading
        cases reading
      · rw [heard.2 two] at reading
        cases reading
    · refine Or.inl ⟨?_, fun two' => absurd two' two⟩
      have shown := h.encodes.collision
      rw [h.level] at shown
      cases found : s.gpioCollision with
      | true =>
          have one : 1 ≤ l := shown.mp found
          have exact1 : l = 1 := by omega
          simp [exact1]
      | false =>
          have zero : ¬ 1 ≤ l := fun one => by
            rw [shown.mpr one] at found
            cases found
          have exact0 : l = 0 := by omega
          simp [exact0]

/-! ### The response of the listener -/

/-- How many of its accesses the listener made. -/
def accesses (bs : List ChainAction) : ℕ :=
  bs.countP fun
    | .pin .readAutobrake => true
    | .pin .readCollision => true
    | _ => false

/-- How many statements the buzzer task made. -/
def statements (bs : List ChainAction) : ℕ :=
  bs.countP fun
    | .buzzer => true
    | .pin _ => false

@[simp] theorem accesses_buzzer (bs : List ChainAction) :
    accesses (bs ++ [.buzzer]) = accesses bs := by
  simp [accesses]

theorem accesses_write {b : PinAction} (isWrite : b.IsWrite) (bs : List ChainAction) :
    accesses (bs ++ [.pin b]) = accesses bs := by
  cases b with
  | writeAutobrake dist => simp [accesses]
  | writeCollision => simp [accesses]
  | readAutobrake => exact isWrite.elim
  | readCollision => exact isWrite.elim

theorem accesses_read {b : PinAction} (isRead : ¬ b.IsWrite) (bs : List ChainAction) :
    accesses (bs ++ [.pin b]) = accesses bs + 1 := by
  cases b with
  | writeAutobrake dist => exact absurd trivial isRead
  | writeCollision => exact absurd trivial isRead
  | readAutobrake => simp [accesses]
  | readCollision => simp [accesses]

theorem Showing.snoc {l : ℕ} {bs : List ChainAction} {a : ChainAction}
    (h : Showing l (bs ++ [a])) :
    Showing l bs ∧ ∀ dist, a = .pin (.writeAutobrake dist) → alertLevel dist = l :=
  ⟨fun dist mem => h dist (List.mem_append_left _ mem),
    fun dist same => h dist (by simp [same])⟩

theorem Showing.append {l : ℕ} {bs cs : List ChainAction} (h : Showing l (bs ++ cs)) :
    Showing l bs ∧ Showing l cs :=
  ⟨fun dist mem => h dist (List.mem_append_left _ mem),
    fun dist mem => h dist (List.mem_append_right _ mem)⟩

/-- While the pins show `l` the listener is one access from it after one, and has it
after two. -/
structure Tuned (l : ℕ) (bs : List ChainAction) (s : PinState) : Prop where
  shows : s.Shows l
  one : 1 ≤ accesses bs → s.Near l ∨ s.Heard l
  two : 2 ≤ accesses bs → s.Heard l

theorem tuned_of_run {l : ℕ} {s₀ s : ChainState} {bs : List ChainAction}
    (start : s₀.pins.Shows l) (ran : run ChainState.step s₀ bs = some s)
    (showing : Showing l bs) : Tuned l bs s.pins := by
  refine run_induct (P := fun bs s => Showing l bs → Tuned l bs s.pins) ?_ ?_ ran showing
  · exact fun _ => ⟨start, fun none => absurd none (by decide), fun none => absurd none (by decide)⟩
  intro bs s a s' before stepped showing
  obtain ⟨earlier, same⟩ := showing.snoc
  have tuned := before earlier
  rcases ChainState.step_cases stepped with ⟨b, pins, rfl, moved, rfl⟩ | ⟨rfl, rfl⟩
  · have shows := tuned.shows.step moved fun dist here => same dist (here ▸ rfl)
    by_cases isWrite : b.IsWrite
    · obtain ⟨listener, status⟩ := step_write moved isWrite
      refine ⟨shows, ?_, ?_⟩
      · rw [accesses_write isWrite]
        simpa only [PinState.Near, PinState.Heard, listener, status] using tuned.one
      · rw [accesses_write isWrite]
        simpa only [PinState.Heard, listener, status] using tuned.two
    · have access := tuned.shows.access moved isWrite
      refine ⟨shows, fun _ => access.symm.imp_left And.left, ?_⟩
      rw [accesses_read isWrite]
      intro second
      -- The listener was near the level or had it, so this access does not bring it near only.
      have was := tuned.one (by omega)
      rcases access with heard | ⟨-, far, unheard⟩
      · exact heard
      · exact absurd was (not_or_intro far unheard)
  · refine ⟨tuned.shows, ?_, ?_⟩
    · simpa using tuned.one
    · simpa using tuned.two

/-! ### The response of the buzzer -/

/-- With a status that stays, the buzzer task is its own statements. -/
theorem buzzer_of_run {l : ℕ} {s₀ s : ChainState} {bs : List ChainAction}
    (start : s₀.pins.Shows l) (heard : s₀.pins.Heard l)
    (ran : run ChainState.step s₀ bs = some s) (showing : Showing l bs) :
    s.buzzer = (Buzzer.statement l)^[statements bs] s₀.buzzer := by
  refine (run_induct (P := fun bs s => Showing l bs → s.pins.Shows l ∧ s.pins.Heard l ∧
    s.buzzer = (Buzzer.statement l)^[statements bs] s₀.buzzer) (fun _ => ⟨start, heard, rfl⟩) ?_
    ran showing).2.2
  intro bs s a s' before stepped showing
  obtain ⟨earlier, same⟩ := showing.snoc
  obtain ⟨shows, heard, iterated⟩ := before earlier
  rcases ChainState.step_cases stepped with ⟨b, pins, rfl, moved, rfl⟩ | ⟨rfl, rfl⟩
  · refine ⟨shows.step moved fun dist here => same dist (here ▸ rfl), ?_, ?_⟩
    · by_cases isWrite : b.IsWrite
      · obtain ⟨listener, status⟩ := step_write moved isWrite
        simpa only [PinState.Heard, listener, status] using heard
      · exact (shows.access moved isWrite).resolve_right fun near => near.2.2 heard
    · simpa [statements] using iterated
  · refine ⟨shows, heard, ?_⟩
    have one : statements (bs ++ [.buzzer]) = statements bs + 1 := by simp [statements]
    rw [one, Function.iterate_succ_apply', ← iterated, heard.1]

/-- In the loop of `case 2` with the pin high, or in that of `case 0` with it low. -/
def Buzzer.Constant (level : Bool) (b : Buzzer) : Prop :=
  match b.pc with
  | .switching => b.gpioBuzzer = level
  | .low => b.gpioBuzzer = level ∧ level = false
  | .high => b.gpioBuzzer = level ∧ level = true
  | .delay5 => b.gpioBuzzer = level
  | _ => False

theorem Buzzer.Constant.gpioBuzzer {level : Bool} {b : Buzzer} (h : b.Constant level) :
    b.gpioBuzzer = level := by
  unfold Constant at h
  split at h
  · exact h
  · exact h.1
  · exact h.1
  · exact h
  · exact h.elim

theorem Buzzer.constant_six (level : Bool) (b : Buzzer) :
    ((statement (cond level 2 0))^[6] b).Constant level := by
  obtain ⟨pc, buzzerStatus, gpioBuzzer⟩ := b
  cases level <;> cases pc <;> first | exact rfl | exact ⟨rfl, rfl⟩

theorem Buzzer.Constant.statement {level : Bool} {b : Buzzer} (h : b.Constant level) :
    (b.statement (cond level 2 0)).Constant level := by
  obtain ⟨pc, buzzerStatus, gpioBuzzer⟩ := b
  cases pc with
  | switching => cases level <;> exact ⟨h, rfl⟩
  | low => exact h.2.symm
  | toggle => exact h.elim
  | delay100 => exact h.elim
  | flip => exact h.elim
  | high => exact h.2.symm
  | delay5 => exact h

/-- Once the pins show a level and keep showing it, the listener has it after two
accesses, and then the buzzer is on for 2 and off for 0 after six statements of its
task, whatever the three programs were doing before. -/
theorem buzzer_follows (as bs cs : List ChainAction) (s₀ s₁ s : ChainState) (l : ℕ)
    (reached : run ChainState.step ChainState.init as = some s₀) (level : s₀.pins.level = l)
    (updating : ∀ dist, s₀.pins.updating = some dist → alertLevel dist = l)
    (first : run ChainState.step s₀ bs = some s₁) (reads : 2 ≤ accesses bs)
    (second : run ChainState.step s₁ cs = some s) (long : 6 ≤ statements cs)
    (showing : Showing l (bs ++ cs)) :
    s.pins.currentStatus = l ∧ (l = 2 → s.buzzer.gpioBuzzer = true) ∧
      (l = 0 → s.buzzer.gpioBuzzer = false) := by
  obtain ⟨early, late⟩ := showing.append
  have shows : s₀.pins.Shows l := ⟨ChainState.encodes reached, level, updating⟩
  have tuned := tuned_of_run shows first early
  have heard := tuned.two reads
  have iterated := buzzer_of_run tuned.shows heard second late
  have all := tuned_of_run shows (run_append_eq_some.mpr ⟨s₁, first, second⟩) showing
  refine ⟨(all.two ?_).1, ?_, ?_⟩
  · simp only [accesses, List.countP_append] at reads ⊢
    omega
  · rintro rfl
    rw [iterated]
    exact (iterate_settles (Buzzer.constant_six true) (fun _ => Buzzer.Constant.statement) _
      long).gpioBuzzer
  · rintro rfl
    rw [iterated]
    exact (iterate_settles (Buzzer.constant_six false) (fun _ => Buzzer.Constant.statement) _
      long).gpioBuzzer

/-- An obstacle within 7 cm while the buzzer task is about to beep. -/
theorem buzzer_follows_closer :
    let as := [.pin (.writeAutobrake 10), .pin .writeCollision, .pin .readAutobrake,
      .pin .readCollision, .buzzer, .pin (.writeAutobrake 5), .pin .writeCollision]
    let bs := [.pin .readAutobrake, .buzzer, .pin .readAutobrake]
    let cs := List.replicate 6 .buzzer
    ∃ s₀ s₁ s, run ChainState.step ChainState.init as = some s₀ ∧
      run ChainState.step s₀ bs = some s₁ ∧ run ChainState.step s₁ cs = some s ∧
      s.pins.currentStatus = 2 ∧ s.buzzer.gpioBuzzer = true := by
  intro as bs cs
  have reached : run ChainState.step ChainState.init as =
      some ⟨⟨true, true, 2, none, .autobrake, 1⟩, ⟨.toggle, false, false⟩⟩ := by
    decide +kernel
  have showing : Showing 2 (bs ++ cs) := by
    intro dist mem
    simp [bs, cs] at mem
  obtain ⟨status, on, -⟩ := buzzer_follows as bs cs _
    ⟨⟨true, true, 2, none, .autobrake, 2⟩, ⟨.delay100, false, true⟩⟩
    ⟨⟨true, true, 2, none, .autobrake, 2⟩, ⟨.switching, true, true⟩⟩ 2
    reached rfl nofun rfl (by decide) rfl (by decide) showing
  exact ⟨_, _, _, reached, rfl, rfl, status, on rfl⟩

/-- The pin shows `buzzer_status`, but for the delay of 100 ms before it is flipped. -/
def Buzzer.Beeping (b : Buzzer) : Prop :=
  match b.pc with
  | .low => False
  | .high => False
  | .delay100 => b.gpioBuzzer = !b.buzzerStatus
  | .flip => b.gpioBuzzer = !b.buzzerStatus
  | _ => b.gpioBuzzer = b.buzzerStatus

theorem Buzzer.beeping_five (b : Buzzer) : ((statement 1)^[5] b).Beeping := by
  obtain ⟨pc, buzzerStatus, gpioBuzzer⟩ := b
  cases pc <;> cases buzzerStatus <;> rfl

theorem Buzzer.Beeping.statement {b : Buzzer} (h : b.Beeping) : (b.statement 1).Beeping := by
  obtain ⟨pc, buzzerStatus, gpioBuzzer⟩ := b
  cases pc with
  | switching => exact h
  | low => exact h.elim
  | toggle => cases buzzerStatus <;> rfl
  | delay100 => exact h
  | flip => exact h
  | high => exact h.elim
  | delay5 => exact h

/-- One period of five statements turns the pin over. -/
theorem Buzzer.Beeping.five {b : Buzzer} (h : b.Beeping) :
    ((Buzzer.statement 1)^[5] b).gpioBuzzer = !b.gpioBuzzer := by
  obtain ⟨pc, buzzerStatus, gpioBuzzer⟩ := b
  cases pc with
  | low => exact h.elim
  | high => exact h.elim
  | _ => cases buzzerStatus <;> cases gpioBuzzer <;> first | rfl | cases h

/-- While the pins show 1 the buzzer beeps: two accesses of the listener and five
statements of its task on, every five statements turn the pin over. -/
theorem buzzer_beeps (as bs cs ds : List ChainAction) (s₀ s₁ s s' : ChainState)
    (reached : run ChainState.step ChainState.init as = some s₀) (level : s₀.pins.level = 1)
    (updating : ∀ dist, s₀.pins.updating = some dist → alertLevel dist = 1)
    (first : run ChainState.step s₀ bs = some s₁) (reads : 2 ≤ accesses bs)
    (second : run ChainState.step s₁ cs = some s) (long : 5 ≤ statements cs)
    (third : run ChainState.step s ds = some s') (period : statements ds = 5)
    (showing : Showing 1 (bs ++ (cs ++ ds))) :
    s'.buzzer.gpioBuzzer = !s.buzzer.gpioBuzzer := by
  obtain ⟨early, later⟩ := showing.append
  have shows : s₀.pins.Shows 1 := ⟨ChainState.encodes reached, level, updating⟩
  have tuned := tuned_of_run shows first early
  have heard := tuned.two reads
  have settles := buzzer_of_run tuned.shows heard second later.append.1
  have turns := buzzer_of_run tuned.shows heard (run_append_eq_some.mpr ⟨s, second, third⟩) later
  have count : statements (cs ++ ds) = 5 + statements cs := by
    rw [← period]
    simp only [statements, List.countP_append, Nat.add_comm]
  rw [count, Function.iterate_add_apply, ← settles] at turns
  rw [turns]
  refine Buzzer.Beeping.five ?_
  rw [settles]
  exact iterate_settles Buzzer.beeping_five (fun _ => Buzzer.Beeping.statement) _ long

/-- From the start on: up after three statements, and down again after eight. -/
theorem buzzer_beeps_closer :
    let as := [.pin (.writeAutobrake 10), .pin .writeCollision]
    let bs := [.pin .readAutobrake, .pin .readCollision]
    let cs := List.replicate 5 .buzzer
    ∃ s₀ s₁ s s', run ChainState.step ChainState.init as = some s₀ ∧
      run ChainState.step s₀ bs = some s₁ ∧ run ChainState.step s₁ cs = some s ∧
      run ChainState.step s cs = some s' ∧ s.buzzer.gpioBuzzer = true ∧
      s'.buzzer.gpioBuzzer = !s.buzzer.gpioBuzzer := by
  intro as bs cs
  have reached : run ChainState.step ChainState.init as =
      some ⟨⟨false, true, 1, none, .autobrake, 0⟩, ⟨.switching, false, false⟩⟩ := by
    decide +kernel
  have showing : Showing 1 (bs ++ (cs ++ cs)) := by
    intro dist mem
    simp [bs, cs] at mem
  have turned := buzzer_beeps as bs cs cs _
    ⟨⟨false, true, 1, none, .autobrake, 1⟩, ⟨.switching, false, false⟩⟩
    ⟨⟨false, true, 1, none, .autobrake, 1⟩, ⟨.switching, true, true⟩⟩
    ⟨⟨false, true, 1, none, .autobrake, 1⟩, ⟨.switching, false, false⟩⟩
    reached rfl nofun rfl (by decide) rfl (by decide) rfl (by decide) showing
  exact ⟨_, _, _, _, reached, rfl, rfl, rfl, rfl, turned⟩

end Adas.Link.Pins
