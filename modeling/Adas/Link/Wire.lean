import Adas.Ecu.Filter
import Adas.Esp.Tasks
import Adas.Lib.Cut

/-!
The bytes between the two programs.

The ECU writes `str(current_state) + '_' + str(i)` once per cycle, with no
terminator. The ESP32 takes the first byte of whatever a read returns for the
state's digit. Reads that begin with a message are understood
(`receive_message`); the modules after this one say what becomes of the others.
-/

namespace Adas.Link

open Lib Ecu Esp

/-- The value of `current_state` on the ESP32 that stands for a state. -/
def espState (s : StateId) : UInt8 := UInt8.ofNat s.id

@[simp] theorem espState_inj {s s' : StateId} : espState s = espState s' ↔ s = s' := by
  cases s <;> cases s' <;> decide

@[simp] theorem espState_eq_two {s : StateId} : espState s = 2 ↔ s = .autobrake := by
  cases s <;> decide

/-- The digit of a state, read back. -/
@[simp] theorem digit_sub (s : StateId) : 48 + espState s - 48 = espState s := by
  cases s <;> rfl

theorem strEncode_id (s : StateId) : strEncode s.id = [48 + espState s] := by
  cases s <;> decide

/-- The digit of the state, the underscore, the digits of the index. -/
theorem encode_eq (m : Message) :
    m.encode = (48 + espState m.state) :: 95 :: strEncode m.i := by
  rw [Message.encode, strEncode_id, List.singleton_append]

/-- A read that begins with a message takes its state over, and brakes exactly
when this enters state 2. -/
theorem receive_message {r : Reader} {prev : StateId} (was : r.currentState = espState prev)
    (m : Message) (rest : List UInt8) :
    (r.receive (m.encode ++ rest)).1.currentState = espState m.state ∧
      ((r.receive (m.encode ++ rest)).2 = true ↔ m.state = .autobrake ∧ prev ≠ .autobrake) := by
  simp only [encode_eq, List.cons_append, Reader.receive, digit_sub, was, true_and]
  simp only [Bool.and_eq_true, decide_eq_true_iff, ne_eq, espState_inj, espState_eq_two]
  constructor
  · rintro ⟨changed, braking⟩
    exact ⟨braking, fun same => changed (braking.trans same.symm)⟩
  · rintro ⟨braking, other⟩
    exact ⟨fun same => other (same ▸ braking), braking⟩

/-- The index in message `k` is `k` modulo the size of the ring. -/
theorem index_of_sent {xs : List CycleInput} {e : EcuState} {ms : List Message} {k : ℕ}
    {m : Message} (sent : getMedianDistancesThread xs = .ok (e, ms)) (at_k : ms[k]? = some m) :
    m.i.val = k % eventsArraySize := by
  rw [(after_of_run sent).sent] at at_k
  obtain ⟨-, -, index⟩ := messages_getElem? at_k
  exact index

end Adas.Link
