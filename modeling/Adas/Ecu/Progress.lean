import Adas.Ecu.Batches

/-!
No deadlock between the ECU's threads.

Each lock is shared by two threads, and neither waits for anything while it holds
one. So whatever the threads have done, a few statements complete the iteration of
the decision loop or end it with an exception (`iteration_completes`): those that the
loop has left, and those that a sensor thread needs to leave a critical section.
The exception can only come before the first message, with a speed that leaves the
limits unbound (`ended_unsent`); a loop that has sent one goes on to send the next
(`keeps_sending`).
-/

namespace Adas.Ecu

open Lib

/-- The statements up to the message, at most. -/
def LoopPc.rank : LoopPc → ℕ
  | .acquire .sensor0 => 15
  | .len .sensor0 => 14
  | .median .sensor0 => 13
  | .clear .sensor0 => 12
  | .missing .sensor0 => 12
  | .release .sensor0 => 11
  | .acquire .sensor1 => 10
  | .len .sensor1 => 9
  | .median .sensor1 => 8
  | .clear .sensor1 => 7
  | .missing .sensor1 => 7
  | .release .sensor1 => 6
  | .fuse => 5
  | .test1 => 4
  | .test2 => 3
  | .test3 => 2
  | .decide => 1
  | .send => 0
  | .ended _ => 0

/-- The statements of a sensor thread up to the end of its critical section. -/
def SensorPc.rank : SensorPc → ℕ
  | .append _ => 2
  | .release => 1
  | _ => 0

def Threads.rank (s : Threads) : ℕ :=
  s.pc.rank + (s.sensor .sensor0).rank + (s.sensor .sensor1).rank

/-- The loop has sent a message more than `n`, or has ended. -/
def Threads.Completed (n : ℕ) (s : Threads) : Prop :=
  s.sent.length = n + 1 ∨ ∃ e, s.pc = .ended e

/-- A statement of the loop sends, ends the loop, or brings it nearer to sending. -/
theorem LoopStep.rank_lt {s s' : Threads} (h : LoopStep s s') :
    s'.Completed s.sent.length ∨ (s'.sent = s.sent ∧ s'.rank < s.rank) := by
  cases h
  case send pc => exact Or.inl (Or.inl (by simp))
  case noData k pc empty => exact Or.inl (Or.inr ⟨_, rfl⟩)
  case unfused k e pc unbound => exact Or.inl (Or.inr ⟨_, rfl⟩)
  case raise e pc raised => exact Or.inl (Or.inr ⟨_, rfl⟩)
  case acquire k pc _ | filled k pc _ | empty k pc _ | median k pc _ | clear k pc | missing k pc |
      release k pc =>
    refine Or.inr ⟨rfl, ?_⟩
    cases k <;> simp [Threads.rank, pc, LoopPc.rank, LoopPc.afterRelease]
  all_goals exact Or.inr ⟨rfl, by simp [Threads.rank, ‹s.pc = _›, LoopPc.rank]⟩

/-- The loop waits for nothing but a lock. -/
theorem Threads.loopStep_enabled {s : Threads} (alive : ∀ e, s.pc ≠ .ended e)
    (free : ∀ k, s.pc = .acquire k → s.locked k = false) : ∃ s', s.loopStep = some s' := by
  unfold loopStep
  split
  · rename_i k pc
    rw [free k pc]
    exact ⟨_, rfl⟩
  · exact ⟨_, rfl⟩
  · split <;> exact ⟨_, rfl⟩
  · exact ⟨_, rfl⟩
  · exact ⟨_, rfl⟩
  · exact ⟨_, rfl⟩
  · split <;> exact ⟨_, rfl⟩
  · split <;> exact ⟨_, rfl⟩
  · split <;> exact ⟨_, rfl⟩
  · split <;> exact ⟨_, rfl⟩
  · split <;> exact ⟨_, rfl⟩
  · exact ⟨_, rfl⟩
  · rename_i e pc
    exact absurd pc (alive e)

/-- A sensor thread in its critical section goes on, and nearer to its end. -/
theorem Threads.sensorStep_inside {s : Threads} {k : SensorId}
    (inside : (s.sensor k).inside = true) :
    ∃ s', s.sensorStep k = some s' ∧ s'.sent = s.sent ∧ s'.rank < s.rank := by
  cases pc : s.sensor k with
  | sampling => simp [SensorPc.inside, pc] at inside
  | acquire distance => simp [SensorPc.inside, pc] at inside
  | append distance =>
      refine ⟨{ s with
        distances := Function.update s.distances k (s.distances k ++ [distance])
        sensor := Function.update s.sensor k .release }, by simp only [sensorStep, pc], rfl, ?_⟩
      cases k <;> simp [rank, pc, SensorPc.rank]
  | release =>
      refine ⟨{ s with
        locked := Function.update s.locked k false
        sensor := Function.update s.sensor k .sampling }, by simp only [sensorStep, pc], rfl, ?_⟩
      cases k <;> simp [rank, pc, SensorPc.rank]

/-- Some statement is always possible, and brings the message nearer. -/
theorem Locking.progress {s : Threads} (h : Locking s) (alive : ∀ e, s.pc ≠ .ended e) :
    ∃ a s', s.step a = some s' ∧
      (s'.Completed s.sent.length ∨ (s'.sent = s.sent ∧ s'.rank < s.rank)) := by
  by_cases free : ∀ k, s.pc = .acquire k → s.locked k = false
  · obtain ⟨s', stepped⟩ := Threads.loopStep_enabled alive free
    exact ⟨.loop, s', stepped, (Threads.loopStep_cases stepped).rank_lt⟩
  · -- The loop waits for a lock, so the sensor thread is inside.
    simp only [not_forall, Bool.not_eq_false] at free
    obtain ⟨k, waits, taken⟩ := free
    have held := (h k).held
    have outside : s.pc.inside k = false := by rw [waits]; rfl
    rw [taken, outside, Bool.or_false] at held
    obtain ⟨s', stepped, sent, lower⟩ := Threads.sensorStep_inside held.symm
    exact ⟨.sensor k, s', stepped, Or.inr ⟨sent, lower⟩⟩

theorem Threads.rank_le (s : Threads) : s.rank ≤ 19 := by
  have loop : s.pc.rank ≤ 15 := by
    unfold LoopPc.rank
    split <;> decide
  have sensor (k : SensorId) : (s.sensor k).rank ≤ 2 := by
    unfold SensorPc.rank
    split <;> decide
  have both := Nat.add_le_add (sensor .sensor0) (sensor .sensor1)
  unfold rank
  omega

theorem Locking.completes {s : Threads} (h : Locking s) (alive : ∀ e, s.pc ≠ .ended e) :
    ∃ bs s', run Threads.step s bs = some s' ∧ s'.Completed s.sent.length ∧ bs.length ≤ 20 := by
  let Going (t : Threads) : Prop :=
    Locking t ∧ (∀ e, t.pc ≠ .ended e) ∧ t.sent.length = s.sent.length
  have progress (t : Threads) (going : Going t) : ∃ a t', t.step a = some t' ∧
      (t'.Completed s.sent.length ∨ Going t' ∧ t'.rank < t.rank) := by
    obtain ⟨locking, alive, length⟩ := going
    obtain ⟨a, t', stepped, completed | ⟨sent, lower⟩⟩ := locking.progress alive
    · exact ⟨a, t', stepped, Or.inl (length ▸ completed)⟩
    · refine ⟨a, t', stepped, ?_⟩
      by_cases ended : ∃ e, t'.pc = .ended e
      · exact Or.inl (Or.inr ended)
      · exact Or.inr ⟨⟨locking.step stepped, not_exists.mp ended, by rw [sent, length]⟩, lower⟩
  obtain ⟨bs, s', ran, completed, short⟩ := run_reaches progress (s := s) ⟨h, alive, rfl⟩
  exact ⟨bs, s', ran, completed, short.trans (Nat.add_le_add_right s.rank_le 1)⟩

/-- From every state that the threads can reach, twenty statements or less complete
the iteration that the loop is in, unless it has ended. -/
theorem iteration_completes (as : List ThreadAction) (s : Threads)
    (reached : run Threads.step Threads.init as = some s) (alive : ∀ e, s.pc ≠ .ended e) :
    ∃ bs s', run Threads.step s bs = some s' ∧ s'.Completed s.sent.length ∧ bs.length ≤ 20 := by
  have locking : Locking s :=
    run_invariant locking_init (fun _ _ _ locking stepped => locking.step stepped) reached
  exact locking.completes alive

/-- The loop waits for the first list, whose lock a sensor thread holds. -/
theorem iteration_completes_waiting :
    let as : List ThreadAction := [.sample .sensor0 10, .sensor .sensor0]
    ∃ s, run Threads.step Threads.init as = some s ∧ s.step .loop = none ∧
      ∃ bs s', run Threads.step s bs = some s' ∧ s'.Completed s.sent.length ∧ bs.length ≤ 20 := by
  intro as
  exact ⟨_, rfl, rfl, iteration_completes as _ rfl nofun⟩

/-! ### The end of the loop -/

/-- The iteration that raises is the first one, and finds no test of the speed chain
to hold. -/
theorem Follows.dies {as : List ThreadAction} {s : Threads} {p : Progress} (h : Follows as s p)
    {e : LoopError} (ended : s.pc = .ended e) :
    p.done = [] ∧ ∃ x : TornInput, x.ReadFrom as ∧ ¬ x.Slow ∧
      e = .python (.unboundLocal "AUTOBRAKE_DIST") := by
  cases e with
  | statistics k =>
      have impossible := h.list
      rw [Threads.ListKnown, ended] at impossible
      exact impossible.elim
  | python error =>
      have deciding := h.deciding
      rw [Threads.Deciding, ended] at deciding
      obtain ⟨x, -, read, raised⟩ := deciding
      have never (completes : x.Slow ∨ p.before.Bound) : False := by
        obtain ⟨e', m, ok, -⟩ := tornCycle_ok completes
        rw [ok] at raised
        cases raised
      have first : p.done = [] := by
        by_contra later
        have after := after_of_run ((runOut_tornCycle _ _).symm.trans h.done)
        exact never (Or.inr (after.limits (by simpa using later)))
      have fast : ¬ x.Slow := fun slow => never (Or.inl slow)
      have start : p.before = EcuState.init := by
        have ran := h.done
        rw [first, runOut_nil] at ran
        exact (Prod.mk.inj (Except.ok.inj ran)).1.symm
      rw [start, tornCycle_unbound fast rfl] at raised
      cases raised
      exact ⟨first, x, read, fast, rfl⟩

/-- The loop ends before its first message or never, at the first comparison with a
limit, and only if a speed of 80 or more was stored. -/
theorem ended_unsent (as : List ThreadAction) (s : Threads) (e : LoopError)
    (reached : run Threads.step Threads.init as = some s) (ended : s.pc = .ended e) :
    s.sent = [] ∧ e = .python (.unboundLocal "AUTOBRAKE_DIST") ∧
      ∃ v, lessThanValueStage3 ≤ v ∧ .store v ∈ as := by
  obtain ⟨-, p, follows⟩ := follows_of_run reached
  obtain ⟨first, x, read, fast, rfl⟩ := follows.dies ended
  have length := follows.sent_length
  rw [first] at length
  have above : lessThanValueStage3 ≤ x.currentSpeed3 :=
    not_lt.mp fun slow => fast (Or.inr (Or.inr slow))
  refine ⟨List.eq_nil_of_length_eq_zero length, rfl, x.currentSpeed3, above, ?_⟩
  refine read.2.2.resolve_left fun zero => ?_
  rw [zero] at above
  exact absurd above (by decide)

/-- The serial thread stores 80 before the first test. -/
theorem ended_unsent_fast :
    let as : List ThreadAction := .store 80 :: List.replicate 13 .loop
    ∃ s, run Threads.step Threads.init as = some s ∧
      s.pc = .ended (.python (.unboundLocal "AUTOBRAKE_DIST")) ∧ s.sent = [] ∧
      ∃ v, lessThanValueStage3 ≤ v ∧ .store v ∈ as := by
  intro as
  have ends : (run Threads.step Threads.init as).map Threads.pc =
      some (.ended (.python (.unboundLocal "AUTOBRAKE_DIST"))) := by
    decide +kernel
  obtain ⟨s, reached, ended⟩ := Option.map_eq_some_iff.mp ends
  obtain ⟨unsent, -, stored⟩ := ended_unsent as s _ reached ended
  exact ⟨s, reached, ended, unsent, stored⟩

/-- After its first message the loop sends another within twenty statements, from
every state that the threads can reach. -/
theorem keeps_sending (as : List ThreadAction) (s : Threads)
    (reached : run Threads.step Threads.init as = some s) (first : s.sent ≠ []) :
    ∃ bs s', run Threads.step s bs = some s' ∧ s'.sent.length = s.sent.length + 1 ∧
      bs.length ≤ 20 := by
  obtain ⟨locking, p, follows⟩ := follows_of_run reached
  have begun : p.done ≠ [] := by
    intro none
    have length := follows.sent_length
    rw [none] at length
    exact first (List.eq_nil_of_length_eq_zero length)
  have alive (e : LoopError) : s.pc ≠ .ended e := fun ended => begun (follows.dies ended).1
  obtain ⟨bs, s', ran, sent | ⟨e, ended⟩, short⟩ := locking.completes alive
  · exact ⟨bs, s', ran, sent, short⟩
  · obtain ⟨p', kept, follows', -⟩ := follows.steps locking ran
    have none := (follows'.dies ended).1
    rw [none] at kept
    exact absurd (List.prefix_nil.mp kept) begun

/-- One message, and then a speed of 90 and a sensor thread with the lock. -/
theorem keeps_sending_locked :
    let as : List ThreadAction := List.replicate 12 .loop ++
      [.store 90, .sample .sensor0 10, .sensor .sensor0]
    ∃ s, run Threads.step Threads.init as = some s ∧ s.step .loop = none ∧
      ∃ bs s', run Threads.step s bs = some s' ∧ s'.sent.length = s.sent.length + 1 ∧
        bs.length ≤ 20 := by
  intro as
  have waits : (run Threads.step Threads.init as).any (fun s =>
      (s.step .loop).isNone && s.sent.length = 1) = true := by
    decide +kernel
  obtain ⟨s, reached, known⟩ := (Option.any_eq_true _ _).mp waits
  simp only [Bool.and_eq_true, Option.isNone_iff_eq_none, decide_eq_true_eq] at known
  obtain ⟨waiting, one⟩ := known
  have first : s.sent ≠ [] := List.ne_nil_of_length_eq_add_one one
  exact ⟨s, reached, waiting, keeps_sending as s reached first⟩

end Adas.Ecu
