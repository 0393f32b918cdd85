import Adas.Link.Framing
import Adas.Link.System

/-!
The two programs over a stream of bytes.

`Adas.Link.System` delivers whole messages. Here a read takes any number of the
oldest bytes under way that fits the buffer, a part of a message or several of them;
nothing is lost on the way. The ECU still takes whole iterations, and the ESP32 the
segments of `Adas.Esp.Tasks`. The link of `System` is the case in which every read
is one message (`bytes_of_system`). After a read the ESP32 has the state that its
first byte stands for, whatever was read before (`EspEvent.step_read`).
-/

namespace Adas.Link

open Lib Ecu Esp

/-! ### The events of the ESP32 -/

inductive EspEvent where
  /-- One data callback. -/
  | joystick (ind : DataInd)
  /-- `uart_read_bytes` returns the oldest `n` bytes. -/
  | read (n : ℕ)
  /-- It returns nothing within its 20 ms. -/
  | timeout
  /-- The UART task comes back from a delay of `emergency_brake`. -/
  | resume

/-- The segment that an event runs, with these bytes under way: a read returns at
least one byte, at most `BUF_SIZE`, and none that is not there. -/
def EspEvent.segment (unread : List UInt8) : EspEvent → Option Segment
  | .joystick ind => some (.dataInd ind)
  | .read n =>
      if 0 < n ∧ n ≤ bufSize ∧ n ≤ unread.length then some (.read (unread.take n)) else none
  | .timeout => some (.read [])
  | .resume => some .resume

/-- How many bytes it takes from the stream. -/
def EspEvent.taken : EspEvent → ℕ
  | .read n => n
  | _ => 0

def EspEvent.step (e : EspEvent) (unread : List UInt8) (esp : EspState) : Option EspState :=
  (e.segment unread).bind (Esp.step esp)

theorem EspEvent.step_eq_some {e : EspEvent} {unread : List UInt8} {esp esp' : EspState} :
    e.step unread esp = some esp' ↔
      ∃ seg, e.segment unread = some seg ∧ Esp.step esp seg = some esp' :=
  Option.bind_eq_some_iff

theorem EspEvent.segment_read {n : ℕ} {unread : List UInt8} {seg : Segment} :
    (EspEvent.read n).segment unread = some seg ↔
      0 < n ∧ n ≤ bufSize ∧ n ≤ unread.length ∧ .read (unread.take n) = seg := by
  rw [segment]
  split
  · rename_i fits
    simp [fits]
  · rename_i misfit
    refine iff_of_false (by simp) ?_
    rintro ⟨positive, small, inside, -⟩
    exact misfit ⟨positive, small, inside⟩

theorem EspEvent.taken_le {e : EspEvent} {unread : List UInt8} {esp esp' : EspState}
    (h : e.step unread esp = some esp') : e.taken ≤ unread.length := by
  cases e with
  | read n =>
      obtain ⟨seg, segment, -⟩ := step_eq_some.mp h
      exact (segment_read.mp segment).2.2.1
  | _ => exact Nat.zero_le _

theorem EspEvent.step_locked {e : EspEvent} {unread : List UInt8} {esp esp' : EspState}
    (locked : Locked esp) (h : e.step unread esp = some esp') : Locked esp' := by
  obtain ⟨seg, -, stepped⟩ := step_eq_some.mp h
  exact locked.step stepped

/-- A read leaves what its first byte stands for. -/
theorem EspEvent.step_read {n : ℕ} {unread : List UInt8} {esp esp' : EspState}
    (h : (EspEvent.read n).step unread esp = some esp') :
    ∃ byte, unread.head? = some byte ∧ esp'.reader.currentState = byte - 48 := by
  obtain ⟨seg, segment, stepped⟩ := step_eq_some.mp h
  obtain ⟨positive, -, inside, rfl⟩ := segment_read.mp segment
  obtain ⟨byte, rest, rfl⟩ :=
    List.exists_cons_of_length_pos (Nat.lt_of_lt_of_le positive inside)
  obtain ⟨k, rfl⟩ := Nat.exists_eq_succ_of_ne_zero positive.ne'
  refine ⟨byte, rfl, ?_⟩
  rw [List.take_succ_cons] at stepped
  rcases Esp.step_cases stepped with ⟨_, same, -⟩ | ⟨data, same, -, rfl⟩ | ⟨same, -⟩
  · cases same
  · cases same
    rw [EspState.read_reader]
    rfl
  · cases same

/-- Nothing else touches the state. -/
theorem EspEvent.step_other {e : EspEvent} {unread : List UInt8} {esp esp' : EspState}
    (h : e.step unread esp = some esp') (other : ∀ n, e ≠ .read n) :
    esp'.reader.currentState = esp.reader.currentState := by
  obtain ⟨seg, segment, stepped⟩ := step_eq_some.mp h
  refine step_currentState stepped ?_
  rintro byte rest rfl
  cases e with
  | read n => exact other n rfl
  | _ => cases segment

/-! ### The system -/

/-- The ECU, the bytes under way, the ESP32. -/
structure ByteSystem where
  ecu : EcuState
  unread : List UInt8
  esp : EspState

def ByteSystem.init : ByteSystem := ⟨EcuState.init, [], EspState.init⟩

inductive ByteEvent where
  /-- One cycle of the ECU. -/
  | cycle (x : CycleInput)
  | esp (e : EspEvent)

def ByteSystem.step (s : ByteSystem) : ByteEvent → Option ByteSystem
  | .cycle x =>
      match Ecu.cycle s.ecu x with
      | .ok (ecu, m) => some { s with ecu, unread := s.unread ++ m.encode }
      | .error _ => none
  | .esp e =>
      (e.step s.unread s.esp).map fun esp => { s with unread := s.unread.drop e.taken, esp }

/-- The cycles among the events. -/
def iterations (evs : List ByteEvent) : List CycleInput :=
  evs.filterMap fun
    | .cycle x => some x
    | .esp _ => none

/-- The others. -/
def espOf (evs : List ByteEvent) : List EspEvent :=
  evs.filterMap fun
    | .cycle _ => none
    | .esp e => some e

/-- Cycles that send their messages, one after the other. -/
theorem run_cycles {xs : List CycleInput} {e₀ e : EcuState} {sent : List Message}
    (ran : runOut cycle e₀ xs = .ok (e, sent)) (unread : List UInt8) (esp : EspState) :
    run ByteSystem.step ⟨e₀, unread, esp⟩ (xs.map .cycle) =
      some ⟨e, unread ++ (written sent).flatten, esp⟩ := by
  induction xs generalizing e₀ sent unread with
  | nil =>
      cases ran
      simp [written]
  | cons x xs ih =>
      obtain ⟨e₁, m, rest, first, later, rfl⟩ := runOut_cons_eq_ok.mp ran
      refine run_cons_eq_some.mpr ⟨⟨e₁, unread ++ m.encode, esp⟩, ?_, ?_⟩
      · simp [ByteSystem.step, first]
      · rw [ih later]
        simp [written]

/-! ### Whole messages -/

theorem encode_length_pos (m : Message) : 0 < m.encode.length := by
  simp [encode_eq]

theorem encode_length_le (m : Message) : m.encode.length ≤ bufSize := by
  have digits : ∀ i : Fin eventsArraySize, (strEncode i).length ≤ 2 := by decide +kernel
  have two := digits m.i
  simp only [encode_eq, List.length_cons, bufSize]
  omega

/-- The oldest message is there to be read whole. -/
theorem step_whole_message {m : Message} {link : List Message} {esp esp' : EspState}
    (read : Esp.step esp (.read m.encode) = some esp') :
    (EspEvent.read m.encode.length).step (written (m :: link)).flatten esp = some esp' := by
  refine EspEvent.step_eq_some.mpr ⟨_, EspEvent.segment_read.mpr
    ⟨encode_length_pos m, encode_length_le m, ?_, rfl⟩, ?_⟩
  · simp [written]
  · simpa [written] using read

/-- The system with whole messages, over the stream. -/
def System.bytes (s : System) : ByteSystem := ⟨s.ecu, (written s.link).flatten, s.esp⟩

theorem bytes_step {s s' : System} {ev : Event} (h : s.step ev = some s') :
    ∃ ev', s.bytes.step ev' = some s'.bytes := by
  have other {e : EspEvent} {seg : Segment} {esp : EspState} (none : e.taken = 0)
      (segment : ∀ unread, e.segment unread = some seg) (moved : Esp.step s.esp seg = some esp) :
      s.bytes.step (.esp e) = some (System.bytes { s with esp }) := by
    simp [ByteSystem.step, System.bytes, EspEvent.step, segment, moved, none]
  cases ev with
  | cycle x =>
      simp only [System.step] at h
      split at h
      · rename_i ecu m cycled
        cases h
        exact ⟨.cycle x, by simp [ByteSystem.step, System.bytes, cycled, written]⟩
      · cases h
  | deliver =>
      simp only [System.step] at h
      split at h
      · rename_i m link oldest
        obtain ⟨esp, read, rfl⟩ := Option.map_eq_some_iff.mp h
        refine ⟨.esp (.read m.encode.length), ?_⟩
        simp only [ByteSystem.step, System.bytes, oldest, step_whole_message read, Option.map_some,
          EspEvent.taken]
        simp [written]
      · cases h
  | joystick ind =>
      simp only [System.step, Option.map_eq_some_iff] at h
      obtain ⟨esp, moved, rfl⟩ := h
      exact ⟨_, other (e := .joystick ind) rfl (fun _ => rfl) moved⟩
  | timeout =>
      obtain ⟨esp, moved, rfl⟩ := Option.map_eq_some_iff.mp h
      exact ⟨_, other (e := .timeout) rfl (fun _ => rfl) moved⟩
  | resume =>
      obtain ⟨esp, moved, rfl⟩ := Option.map_eq_some_iff.mp h
      exact ⟨_, other (e := .resume) rfl (fun _ => rfl) moved⟩

/-- A run over the link of whole messages is one over the stream, in which each read
takes one message. -/
theorem bytes_of_system {evs : List Event} {s : System}
    (reached : run System.step System.init evs = some s) :
    ∃ evs', run ByteSystem.step ByteSystem.init evs' = some s.bytes := by
  have matched : ∀ (s : System) (ev : Event) (s' : System) (t : ByteSystem), t = s.bytes →
      s.step ev = some s' → ∃ evs' t', run ByteSystem.step t evs' = some t' ∧ t' = s'.bytes := by
    rintro s ev s' _ rfl stepped
    obtain ⟨ev', same⟩ := bytes_step stepped
    exact ⟨[ev'], _, run_cons_eq_some.mpr ⟨_, same, rfl⟩, rfl⟩
  obtain ⟨evs', _, ran, rfl⟩ := run_simulation matched rfl reached
  exact ⟨evs', ran⟩

end Adas.Link
