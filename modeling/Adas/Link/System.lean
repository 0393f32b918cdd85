import Adas.Ecu.Convergence
import Adas.Link.Wire

/-!
The two programs over a link that delivers whole messages.

A step is one cycle of the ECU, one data callback, or one segment of the UART
task; the link holds what the ECU sent and the UART task has not read.
`Linked` is the invariant: the ECU is where its cycles leave it, the link holds
the messages of the cycles not yet read, and the ESP32 has the state of the last
cycle read. With the lockout of `Adas.Esp.Tasks` and the engagement of
`Adas.Ecu.Convergence` it gives the guarantee of the whole, `braking_guarantee`.
-/

namespace Adas.Link

open Lib Ecu Esp

/-- The ECU, the messages under way, the ESP32. -/
structure System where
  ecu : EcuState
  link : List Message
  esp : EspState

def System.init : System := ⟨EcuState.init, [], EspState.init⟩

inductive Event where
  /-- One cycle of the ECU. -/
  | cycle (x : CycleInput)
  /-- One data callback. -/
  | joystick (ind : DataInd)
  /-- A read returns the oldest message. -/
  | deliver
  /-- A read returns nothing within its 20 ms. -/
  | timeout
  /-- The UART task comes back from a delay of `emergency_brake`. -/
  | resume

/-- One event. A cycle that raises ends the ECU thread, and is no event. -/
def System.step (s : System) : Event → Option System
  | .cycle x =>
      match Ecu.cycle s.ecu x with
      | .ok (ecu, m) => some { s with ecu, link := s.link ++ [m] }
      | .error _ => none
  | .joystick ind => (Esp.step s.esp (.dataInd ind)).map fun esp => { s with esp }
  | .deliver =>
      match s.link with
      | m :: link => (Esp.step s.esp (.read m.encode)).map fun esp => { s with link, esp }
      | [] => none
  | .timeout => (Esp.step s.esp (.read [])).map fun esp => { s with esp }
  | .resume => (Esp.step s.esp .resume).map fun esp => { s with esp }

/-- What an event can do: a cycle, the delivery of the oldest message, or a
segment of the ESP32 that delivers nothing. -/
theorem System.step_cases {s s' : System} {ev : Event} (h : s.step ev = some s') :
    (∃ x ecu m, ev = .cycle x ∧ Ecu.cycle s.ecu x = .ok (ecu, m) ∧
      s' = { s with ecu, link := s.link ++ [m] }) ∨
    (∃ m link esp, ev = .deliver ∧ s.link = m :: link ∧
      Esp.step s.esp (.read m.encode) = some esp ∧ s' = { s with link, esp }) ∨
    (∃ seg esp, (∀ x, ev ≠ .cycle x) ∧ ev ≠ .deliver ∧ Esp.step s.esp seg = some esp ∧
      esp.reader.currentState = s.esp.reader.currentState ∧ s' = { s with esp }) := by
  cases ev with
  | cycle x =>
      simp only [step] at h
      split at h
      · rename_i ecu m cycled
        exact Or.inl ⟨x, ecu, m, rfl, cycled, (Option.some.inj h).symm⟩
      · cases h
  | deliver =>
      simp only [step] at h
      split at h
      · rename_i m link oldest
        obtain ⟨esp, read, rfl⟩ := Option.map_eq_some_iff.mp h
        exact Or.inr (Or.inl ⟨m, link, esp, rfl, oldest, read, rfl⟩)
      · cases h
  | joystick ind =>
      simp only [step, Option.map_eq_some_iff] at h
      obtain ⟨esp, stepped, rfl⟩ := h
      exact Or.inr (Or.inr
        ⟨_, esp, nofun, nofun, stepped, step_currentState stepped (by simp), rfl⟩)
  | timeout =>
      simp only [step, Option.map_eq_some_iff] at h
      obtain ⟨esp, stepped, rfl⟩ := h
      exact Or.inr (Or.inr
        ⟨_, esp, nofun, nofun, stepped, step_currentState stepped (by simp), rfl⟩)
  | resume =>
      simp only [step, Option.map_eq_some_iff] at h
      obtain ⟨esp, stepped, rfl⟩ := h
      exact Or.inr (Or.inr
        ⟨_, esp, nofun, nofun, stepped, step_currentState stepped (by simp), rfl⟩)

/-! ### The invariant -/

/-- The cycles among the events. -/
def cycles (evs : List Event) : List CycleInput :=
  evs.filterMap fun
    | .cycle x => some x
    | _ => none

/-- How many messages were delivered. -/
def delivered (evs : List Event) : ℕ :=
  evs.countP fun
    | .deliver => true
    | _ => false

/-- The fused distances of the cycles whose messages the ESP32 has processed. -/
def processed (evs : List Event) : List ℚ := (distances (cycles evs)).take (delivered evs)

/-- Where the parts of the system are after a run. -/
structure Linked (evs : List Event) (s : System) : Prop where
  ecu : getMedianDistancesThread (cycles evs) = .ok (s.ecu, messages (distances (cycles evs)))
  link : s.link = (messages (distances (cycles evs))).drop (delivered evs)
  behind : delivered evs ≤ (cycles evs).length
  reader : s.esp.reader.currentState = espState (reference (processed evs)).state
  locked : Locked s.esp

theorem linked_init : Linked [] System.init :=
  ⟨rfl, rfl, Nat.le_refl _, rfl, locked_init⟩

/-- A cycle sends one more message; what was processed stays. -/
theorem Linked.cycle {evs : List Event} {s : System} (h : Linked evs s) {x : CycleInput}
    {ecu : EcuState} {m : Message} (cycled : Ecu.cycle s.ecu x = .ok (ecu, m)) :
    Linked (evs ++ [.cycle x]) { s with ecu, link := s.link ++ [m] } := by
  have cyclesNow : cycles (evs ++ [.cycle x]) = cycles evs ++ [x] := by simp [cycles]
  have deliveredNow : delivered (evs ++ [.cycle x]) = delivered evs := by simp [delivered]
  have run := runOut_snoc_eq_ok.mpr ⟨_, _, _, h.ecu, cycled, rfl⟩
  have sent := (after_of_run run).sent
  have behind : delivered evs ≤ (messages (distances (cycles evs))).length := by
    simpa using h.behind
  refine ⟨?_, ?_, ?_, ?_, h.locked⟩
  · rw [cyclesNow, ← sent]
    exact run
  · rw [cyclesNow, deliveredNow, ← sent, List.drop_append_of_le_length behind, h.link]
  · rw [cyclesNow, deliveredNow, List.length_append]
    exact Nat.le_add_right_of_le h.behind
  · rw [processed, cyclesNow, deliveredNow, distances_append,
      List.take_append_of_le_length (by simpa using h.behind)]
    exact h.reader

/-- A delivery brings the state of the oldest cycle not yet processed. -/
theorem Linked.deliver {evs : List Event} {s : System} (h : Linked evs s) {m : Message}
    {link : List Message} (oldest : s.link = m :: link) {esp : EspState}
    (read : Esp.step s.esp (.read m.encode) = some esp) :
    Linked (evs ++ [.deliver]) { s with link, esp } := by
  have cyclesNow : cycles (evs ++ [.deliver]) = cycles evs := by simp [cycles]
  have deliveredNow : delivered (evs ++ [.deliver]) = delivered evs + 1 := by simp [delivered]
  have rest := h.link.symm.trans oldest
  have at_head : (messages (distances (cycles evs)))[delivered evs]? = some m := by
    rw [← List.head?_drop, rest, List.head?_cons]
  obtain ⟨inside, state, -⟩ := messages_getElem? at_head
  rcases Esp.step_cases read with ⟨_, same, -⟩ | ⟨data, same, -, rfl⟩ | ⟨same, -⟩
  · cases same
  · cases same
    refine ⟨?_, ?_, ?_, ?_, h.locked.step read⟩
    · rw [cyclesNow]
      exact h.ecu
    · rw [cyclesNow, deliveredNow, ← List.drop_drop, rest]
      rfl
    · rw [cyclesNow, deliveredNow]
      exact Nat.succ_le_of_lt (by simpa using inside)
    · rw [processed, cyclesNow, deliveredNow, ← state]
      have took := (receive_message h.reader m []).1
      rw [List.append_nil] at took
      exact (congrArg Reader.currentState (EspState.read_reader _ _)).trans took
  · cases same

theorem linked_of_run {evs : List Event} {s : System}
    (h : run System.step System.init evs = some s) : Linked evs s := by
  refine run_induct linked_init ?_ h
  intro evs s ev s' linked stepped
  rcases System.step_cases stepped with ⟨x, ecu, m, rfl, cycled, rfl⟩ |
    ⟨m, link, esp, rfl, oldest, read, rfl⟩ | ⟨seg, esp, noCycle, noDeliver, segment, same, rfl⟩
  · exact linked.cycle cycled
  · exact linked.deliver oldest read
  · have cyclesNow : cycles (evs ++ [ev]) = cycles evs := by
      cases ev <;> simp_all [cycles]
    have deliveredNow : delivered (evs ++ [ev]) = delivered evs := by
      cases ev <;> simp_all [delivered]
    refine ⟨?_, ?_, ?_, ?_, linked.locked.step segment⟩
    · rw [cyclesNow]
      exact linked.ecu
    · rw [cyclesNow, deliveredNow]
      exact linked.link
    · rw [cyclesNow, deliveredNow]
      exact linked.behind
    · rw [processed, cyclesNow, deliveredNow]
      exact same.trans linked.reader

/-! ### The guarantee -/

/-- A cycle is always possible when the first one's speed binds the limits. -/
theorem cycle_enabled {evs : List Event} {s : System} {x : CycleInput}
    (reached : run System.step System.init evs = some s)
    (bound : LimitsBound (cycles evs ++ [x])) : ∃ s', s.step (.cycle x) = some s' := by
  obtain ⟨e', m, cycled, -⟩ := (after_of_run (linked_of_run reached).ecu).cycle bound
  simp [System.step, cycled]

/-- Once the ESP32 has processed the message of an eighth dangerous cycle in a
row, and until it processes the message of one that is not dangerous, neither
motor is driven forward. -/
theorem braking_guarantee (evs : List Event) (s : System)
    (reached : run System.step System.init evs = some s) (before danger : List ℚ)
    (last : processed evs = before ++ danger) (eight : 8 ≤ danger.length)
    (close : ∀ d ∈ danger, d < 16) (t : Timer) : ¬ (s.esp.outputs.mcpwm t .a).Driven := by
  have linked := linked_of_run reached
  have braking := braking_of_eight before
    (fun d mem => zone_autobrake_iff.mpr (close d mem)) eight
  refine not_driven_of_low (linked.locked.low ?_ t)
  rw [linked.reader, last, braking]
  rfl

/-- Eight dangerous cycles, their messages, and full speed ahead inside the brake. -/
theorem braking_guarantee_ahead :
    let evs := List.replicate 8 (.cycle (CycleInput.still 10)) ++ List.replicate 8 .deliver ++
      [.joystick (DataInd.ofBytes [48, 50, 48, 48, 51, 48, 48])]
    ∃ s, run System.step System.init evs = some s ∧ ∀ t, ¬ (s.esp.outputs.mcpwm t .a).Driven := by
  intro evs
  have enabled : (run System.step System.init evs).isSome = true := by decide +kernel
  obtain ⟨s, reached⟩ := Option.isSome_iff_exists.mp enabled
  exact ⟨s, reached, braking_guarantee evs s reached [] (List.replicate 8 10) (by decide +kernel)
    (by decide) (by decide +kernel)⟩

end Adas.Link
