import Adas.Link.Wire

/-!
Reads that bring whole messages, several at a time.

This is what piles up while `emergency_brake` blocks the UART task for a second
and the ECU keeps sending. The reader keeps the first state of each read and
compares it with its own previous one, so what it misses is decided inside the
reads: `keepsUp_iff` says that it follows the ECU and brakes once per entry into
state 2 exactly when every read is `Steady`. `brake_missed` is a read that is not.
-/

namespace Adas.Link

open Lib Ecu Esp

/-! ### What was received -/

/-- How often a sequence of states becomes 2 from a different value, `prev` being
the value before it. -/
def entries : StateId → List StateId → ℕ
  | _, [] => 0
  | prev, s :: ss => (if s = .autobrake ∧ prev ≠ .autobrake then 1 else 0) + entries s ss

theorem entries_append (prev : StateId) (ss ss' : List StateId) :
    entries prev (ss ++ ss') = entries prev ss + entries (ss.getLastD prev) ss' := by
  induction ss generalizing prev with
  | nil => simp [entries]
  | cons s ss ih =>
      rw [List.cons_append, entries, ih, List.getLastD_cons, entries, Nat.add_assoc]

/-- Messages of a run of the ECU, grouped into nonempty reads. -/
structure Grouping (xs : List CycleInput) (gs : List (List Message)) : Prop where
  sent : ∃ e ms, getMedianDistancesThread xs = .ok (e, ms) ∧ gs.flatten <+: ms
  nonempty : ∀ g ∈ gs, g ≠ []

/-- The bytes of the reads. -/
def readsOfGroups (gs : List (List Message)) : List (List UInt8) :=
  gs.map fun g => g.flatMap Message.encode

/-- The states received. -/
def received (gs : List (List Message)) : List StateId := gs.flatten.map Message.state

/-- After these reads the ESP32 has the last state received, and has braked once
per entry into state 2. -/
structure Agrees (gs : List (List Message)) : Prop where
  state : (receiveAll (readsOfGroups gs)).1.currentState =
    espState ((received gs).getLastD .normal)
  brakes : (receiveAll (readsOfGroups gs)).2 = entries .normal (received gs)

/-- It does so after each read. -/
def KeepsUp (gs : List (List Message)) : Prop := ∀ hs, hs <+: gs → Agrees hs

/-- All states are 2, or none is and the last one is the first one. -/
def Steady (ss : List StateId) : Prop :=
  (∀ s ∈ ss, s = .autobrake) ∨ (∀ s ∈ ss, s ≠ .autobrake) ∧ ss.getLast? = ss.head?

/-! ### Inside a read -/

/-- Outside state 2, an entry is any occurrence of 2. -/
theorem entries_eq_zero_iff {prev : StateId} (other : prev ≠ .autobrake) {ss : List StateId} :
    entries prev ss = 0 ↔ ∀ s ∈ ss, s ≠ .autobrake := by
  induction ss generalizing prev with
  | nil => simp [entries]
  | cons s ss ih =>
      by_cases braking : s = .autobrake
      · simp [entries, braking, other]
      · simp [entries, braking, ih braking]

/-- In state 2, a sequence that ends in it without entering it never left it. -/
theorem all_autobrake_of_entries {ss : List StateId} (none : entries .autobrake ss = 0)
    (last : ss.getLastD .autobrake = .autobrake) : ∀ s ∈ ss, s = .autobrake := by
  induction ss with
  | nil => simp
  | cons s ss ih =>
      have rest : entries s ss = 0 := by simpa [entries] using none
      rw [List.getLastD_cons] at last
      by_cases braking : s = .autobrake
      · subst braking
        simpa using ih rest last
      · -- Having left state 2, it could only come back by entering it.
        have without := (entries_eq_zero_iff braking).mp rest
        cases ss with
        | nil => exact absurd last braking
        | cons t ts =>
            rw [List.getLastD_cons] at last
            exact absurd last (without _ List.getLastD_mem_cons)

theorem entries_of_all {ss : List StateId} (all : ∀ s ∈ ss, s = .autobrake) :
    entries .autobrake ss = 0 := by
  induction ss with
  | nil => rfl
  | cons s ss ih =>
      obtain rfl := all s List.mem_cons_self
      simpa [entries] using ih fun s mem => all s (List.mem_cons_of_mem _ mem)

/-- A read is steady exactly when it ends in the state it begins with and enters
state 2 at most with its first message. -/
theorem steady_cons_iff (s : StateId) (ss : List StateId) :
    Steady (s :: ss) ↔ ss.getLastD s = s ∧ entries s ss = 0 := by
  have ends : (s :: ss).getLast? = (s :: ss).head? ↔ ss.getLastD s = s := by
    rw [List.getLast?_cons, ← List.getLastD_eq_getLast?, List.head?_cons, Option.some.injEq]
  rw [Steady, ends]
  by_cases braking : s = .autobrake
  · subst braking
    constructor
    · rintro (all | ⟨without, -⟩)
      · exact ⟨all _ List.getLastD_mem_cons,
          entries_of_all fun s mem => all s (List.mem_cons_of_mem _ mem)⟩
      · exact absurd rfl (without _ List.mem_cons_self)
    · rintro ⟨last, none⟩
      exact Or.inl (by simpa using all_autobrake_of_entries none last)
  · rw [entries_eq_zero_iff braking]
    constructor
    · rintro (all | ⟨without, last⟩)
      · exact absurd (all s List.mem_cons_self) braking
      · exact ⟨last, fun t mem => without t (List.mem_cons_of_mem _ mem)⟩
    · rintro ⟨last, without⟩
      exact Or.inr ⟨by simpa [braking] using without, last⟩

/-! ### Read by read -/

theorem agrees_nil : Agrees [] := ⟨rfl, rfl⟩

/-- A read takes over its first message and counts the entry it makes. -/
theorem receive_group {gs : List (List Message)} (agrees : Agrees gs) (m : Message)
    (rest : List Message) :
    (receiveAll (readsOfGroups (gs ++ [m :: rest]))).1.currentState = espState m.state ∧
      (receiveAll (readsOfGroups (gs ++ [m :: rest]))).2 =
        entries .normal (received gs ++ [m.state]) := by
  obtain ⟨state, brakes⟩ := receive_message agrees.state m (rest.flatMap Message.encode)
  have reads : readsOfGroups (gs ++ [m :: rest]) =
      readsOfGroups gs ++ [m.encode ++ rest.flatMap Message.encode] := by
    simp [readsOfGroups]
  rw [reads, receiveAll_snoc, entries_append, agrees.brakes]
  refine ⟨state, congrArg (entries .normal (received gs) + ·) ?_⟩
  rw [entries, entries, Nat.add_zero, ← if_congr brakes rfl rfl]
  cases ((receiveAll (readsOfGroups gs)).1.receive (m.encode ++ rest.flatMap Message.encode)).2 <;>
    rfl

/-- One more read keeps the agreement exactly when it is steady. -/
theorem agrees_snoc {gs : List (List Message)} (agrees : Agrees gs) {g : List Message}
    (nonempty : g ≠ []) : Agrees (gs ++ [g]) ↔ Steady (g.map Message.state) := by
  obtain ⟨m, rest, rfl⟩ := List.exists_cons_of_ne_nil nonempty
  obtain ⟨state, brakes⟩ := receive_group agrees m rest
  have arrived : received (gs ++ [m :: rest]) =
      (received gs ++ [m.state]) ++ rest.map Message.state := by
    simp [received]
  have count := entries_append .normal (received gs ++ [m.state]) (rest.map Message.state)
  have last : (received (gs ++ [m :: rest])).getLastD .normal =
      (rest.map Message.state).getLastD m.state := by
    simp only [arrived, List.append_assoc, List.singleton_append, List.getLastD_eq_getLast?,
      List.getLast?_append, List.getLast?_cons, Option.some_or, Option.getD_some]
  rw [List.getLastD_concat, ← arrived] at count
  rw [List.map_cons, steady_cons_iff]
  constructor
  · rintro ⟨same, braked⟩
    rw [state, last, espState_inj] at same
    rw [brakes, count] at braked
    exact ⟨same.symm, by omega⟩
  · rintro ⟨same, none⟩
    exact ⟨by rw [state, last, same], by rw [brakes, count, none, Nat.add_zero]⟩

/-- The reader keeps up with the ECU exactly when every read is steady. -/
theorem keepsUp_iff {xs : List CycleInput} {gs : List (List Message)} (grouping : Grouping xs gs) :
    KeepsUp gs ↔ ∀ g ∈ gs, Steady (g.map Message.state) := by
  have nonempty := grouping.nonempty
  clear grouping
  induction gs using List.reverseRecOn with
  | nil => exact ⟨fun _ => by simp, fun _ hs within => List.prefix_nil.mp within ▸ agrees_nil⟩
  | append_singleton gs g ih =>
      have rest := ih fun g' mem => nonempty g' (List.mem_append_left _ mem)
      have last : g ≠ [] := nonempty g (by simp)
      constructor
      · intro up
        have before : KeepsUp gs := fun hs within => up hs (within.trans (List.prefix_append _ _))
        have steady := (agrees_snoc (before gs (List.prefix_refl _)) last).mp
          (up _ (List.prefix_refl _))
        intro g' mem
        rcases List.mem_append.mp mem with early | late
        · exact rest.mp before g' early
        · rwa [List.mem_singleton.mp late]
      · intro steady
        have before := rest.mpr fun g' mem => steady g' (List.mem_append_left _ mem)
        intro hs within
        rcases List.prefix_concat_iff.mp within with rfl | inside
        · exact (agrees_snoc (before gs (List.prefix_refl _)) last).mpr (steady g (by simp))
        · exact before hs inside

/-- Two safe cycles read together are followed. -/
theorem keepsUp_iff_together :
    ∃ ms, ms.length = 2 ∧ Grouping (List.replicate 2 (CycleInput.still 100)) [ms] ∧
      KeepsUp [ms] := by
  have bound : LimitsBound (List.replicate 2 (CycleInput.still 100)) := by decide
  obtain ⟨e, run⟩ := thread_messages bound
  have readings : distances (List.replicate 2 (CycleInput.still 100)) = [100, 100] := by
    simp [distances]
  rw [readings] at run
  have grouping : Grouping (List.replicate 2 (CycleInput.still 100)) [messages [100, 100]] :=
    ⟨⟨e, _, run, by simp⟩, by simp [messages]⟩
  have steady : Steady ((messages [100, 100]).map Message.state) :=
    Or.inr ⟨by decide +kernel, by decide +kernel⟩
  exact ⟨_, by decide +kernel, grouping, (keepsUp_iff grouping).mpr (by simpa using steady)⟩

/-- The eighth danger-zone cycle brakes; while the ESP32 is blocked, a safe cycle
releases the state and the next one brakes again. The two messages are read
together, and the second brake is lost. -/
theorem brake_missed :
    ∃ ms : List Message,
      let gs := (ms.take 8).map (fun m => [m]) ++ [ms.drop 8]
      Grouping (List.replicate 8 (CycleInput.still 10) ++
          [CycleInput.still 100, CycleInput.still 10]) gs ∧ ¬ KeepsUp gs := by
  have bound : LimitsBound (List.replicate 8 (CycleInput.still 10) ++
      [CycleInput.still 100, CycleInput.still 10]) := by decide
  obtain ⟨e, run⟩ := thread_messages bound
  have readings : distances (List.replicate 8 (CycleInput.still 10) ++
      [CycleInput.still 100, CycleInput.still 10]) = List.replicate 8 10 ++ [100, 10] := by
    simp [distances]
  rw [readings] at run
  exact ⟨messages (List.replicate 8 10 ++ [100, 10]),
    ⟨⟨e, _, run, by decide +kernel⟩, by decide +kernel⟩,
    fun up => absurd (up _ (List.prefix_refl _)).state (by decide +kernel)⟩

end Adas.Link
