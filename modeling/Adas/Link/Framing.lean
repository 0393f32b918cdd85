import Adas.Link.Wire

/-!
Reads that do not respect the messages.

The stream has no framing, and the UART task takes the first byte of every read
for a state. `noPhantom_iff` says exactly which cuttings of the stream into reads
it survives: those in which every read begins with a message, or with an index
digit that is by luck the state digit of a message it overlaps. A read that
begins with the underscore leaves 47 in `current_state`, and one that begins
with an index digit 2 runs the brake (`phantom_brake`).
-/

namespace Adas.Link

open Lib Ecu Esp

/-- `BUF_SIZE`. -/
def bufSize : ℕ := 1024

/-- The bytes of the messages of a run, as they are written. -/
def written (ms : List Message) : List (List UInt8) := ms.map Message.encode

/-- The successive nonempty reads of the stream that a run of the ECU sends. The
last bytes of the stream may still be on their way. -/
structure Cut (xs : List CycleInput) (ms : List Message) (reads : List (List UInt8)) : Prop where
  sent : ∃ e, getMedianDistancesThread xs = .ok (e, ms)
  nonempty : ∀ data ∈ reads, data ≠ []
  fits : ∀ data ∈ reads, data.length ≤ bufSize
  within : reads.flatten <+: (written ms).flatten

/-- `current_state` after read `j`. -/
def stateAfter (reads : List (List UInt8)) (j : ℕ) : UInt8 :=
  (receiveAll (reads.take (j + 1))).1.currentState

/-- No read makes up a state. -/
structure NoPhantom (ms : List Message) (reads : List (List UInt8)) : Prop where
  /-- After every read the state is one sent in a message overlapping the read. -/
  sent : ∀ j < reads.length, ∃ k m, ms[k]? = some m ∧ Overlap (written ms) reads k j ∧
    stateAfter reads j = espState m.state
  /-- It is always a state. -/
  range : ∀ j < reads.length, stateAfter reads j ∈ [0, 1, 2]
  /-- The brake only runs if the ECU sent its state. -/
  brake : 0 < (receiveAll reads).2 → ∃ m ∈ ms, m.state = .autobrake

/-- Read `j` begins with a message, or with a digit of the index `k % 20` of
message `k` that is also the state digit of a message the read overlaps. -/
def StartsClean (ms : List Message) (reads : List (List UInt8)) (j : ℕ) : Prop :=
  ∃ k < ms.length, offset reads j = offset (written ms) k ∨
    ∃ p digit k' m, offset reads j = offset (written ms) k + (2 + p) ∧
      (strEncode (k % eventsArraySize))[p]? = some digit ∧
      ms[k']? = some m ∧ Overlap (written ms) reads k' j ∧ digit = 48 + espState m.state

/-! ### The first byte of a read -/

/-- Only the first byte of the read matters. -/
theorem stateAfter_eq {reads : List (List UInt8)} {j : ℕ} {data : List UInt8} {byte : UInt8}
    (at_j : reads[j]? = some data) (first : data.head? = some byte) :
    stateAfter reads j = byte - 48 := by
  obtain ⟨rest, rfl⟩ := List.head?_eq_some_iff.mp first
  rw [stateAfter, List.take_add_one, at_j, Option.toList_some, receiveAll_snoc]
  rfl

/-- What a read that begins at byte `r` of message `k` leaves. -/
theorem Cut.stateAfter_of_begins {xs : List CycleInput} {ms : List Message}
    {reads : List (List UInt8)} (cut : Cut xs ms reads) {j k r : ℕ} {m : Message} {byte : UInt8}
    (lt : j < reads.length) (at_k : ms[k]? = some m) (at_r : m.encode[r]? = some byte)
    (begins : offset reads j = offset (written ms) k + r) :
    Overlap (written ms) reads k j ∧ stateAfter reads j = byte - 48 := by
  have at_j : reads[j]? = some reads[j] := List.getElem?_eq_getElem lt
  have nonempty := cut.nonempty _ (List.getElem_mem lt)
  have at_piece : (written ms)[k]? = some m.encode := by simp [written, at_k]
  obtain ⟨inside, -⟩ := List.getElem?_eq_some_iff.mp at_r
  have first := head?_eq_of_prefix cut.within at_piece at_j nonempty inside begins
  exact ⟨overlap_of_begins at_piece at_j nonempty inside begins,
    stateAfter_eq at_j (first.trans at_r)⟩

/-- Every read begins inside some message. -/
theorem Cut.begins {xs : List CycleInput} {ms : List Message} {reads : List (List UInt8)}
    (cut : Cut xs ms reads) {j : ℕ} (lt : j < reads.length) :
    ∃ k r m byte, ms[k]? = some m ∧ m.encode[r]? = some byte ∧
      offset reads j = offset (written ms) k + r := by
  have at_j : reads[j]? = some reads[j] := List.getElem?_eq_getElem lt
  have nonempty := cut.nonempty _ (List.getElem_mem lt)
  obtain ⟨k, r, piece, at_k, inside, begins⟩ := exists_begins cut.within at_j nonempty
  obtain ⟨m, at_m, rfl⟩ := Option.map_eq_some_iff.mp ((List.getElem?_map ..).symm.trans at_k)
  exact ⟨k, r, m, _, at_m, List.getElem?_eq_getElem inside, begins⟩

/-- A brake leaves state 2 behind. -/
theorem exists_two_of_brake {reads : List (List UInt8)} (braked : 0 < (receiveAll reads).2) :
    ∃ j < reads.length, stateAfter reads j = 2 := by
  induction reads using List.reverseRecOn with
  | nil => cases braked
  | append_singleton reads data ih =>
      by_cases before : 0 < (receiveAll reads).2
      · obtain ⟨j, lt, two⟩ := ih before
        refine ⟨j, by simp; omega, ?_⟩
        rwa [stateAfter, List.take_append_of_le_length (by omega)]
      · refine ⟨reads.length, by simp, ?_⟩
        rw [stateAfter, List.take_of_length_le (by simp)]
        rw [receiveAll_snoc] at braked ⊢
        have now : ((receiveAll reads).1.receive data).2 = true := by
          by_contra quiet
          simp [Bool.eq_false_iff.mpr quiet] at braked
          omega
        cases data with
        | nil => cases now
        | cons byte rest =>
            simp only [Reader.receive, Bool.and_eq_true, decide_eq_true_iff] at now
            exact now.2

/-! ### Clean cuttings -/

/-- That only sent states are seen gives the rest. -/
theorem noPhantom_of_sent {ms : List Message} {reads : List (List UInt8)}
    (sent : ∀ j < reads.length, ∃ k m, ms[k]? = some m ∧ Overlap (written ms) reads k j ∧
      stateAfter reads j = espState m.state) : NoPhantom ms reads where
  sent := sent
  range j lt := by
    obtain ⟨-, m, -, -, state⟩ := sent j lt
    rw [state]
    cases m.state <;> decide
  brake braked := by
    obtain ⟨j, lt, two⟩ := exists_two_of_brake braked
    obtain ⟨k, m, at_k, -, state⟩ := sent j lt
    exact ⟨m, List.mem_of_getElem? at_k, espState_eq_two.mp (state.symm.trans two)⟩

/-- No read makes up a state exactly when every read starts clean. -/
theorem noPhantom_iff {xs : List CycleInput} {ms : List Message} {reads : List (List UInt8)}
    (cut : Cut xs ms reads) : NoPhantom ms reads ↔ ∀ j < reads.length, StartsClean ms reads j := by
  obtain ⟨e, run⟩ := cut.sent
  constructor
  · intro phantom j lt
    obtain ⟨k, r, m, byte, at_k, at_r, begins⟩ := cut.begins lt
    obtain ⟨-, state⟩ := cut.stateAfter_of_begins lt at_k at_r begins
    obtain ⟨k', m', at_k', overlap, same⟩ := phantom.sent j lt
    obtain ⟨inside, -⟩ := List.getElem?_eq_some_iff.mp at_k
    rw [state] at same
    rw [encode_eq] at at_r
    refine ⟨k, inside, ?_⟩
    -- The byte at `r` is the state digit, the underscore, or a digit of the index.
    match r, at_r with
    | 0, _ => exact Or.inl begins
    | 1, at_r =>
        obtain rfl : 95 = byte := Option.some.inj at_r
        exact absurd same (by cases m'.state <;> decide)
    | p + 2, at_r =>
        refine Or.inr ⟨p, byte, k', m', by omega, ?_, at_k', overlap, ?_⟩
        · rw [← index_of_sent run at_k]
          exact at_r
        · rw [← same, UInt8.add_comm, UInt8.sub_add_cancel]
  · intro clean
    refine noPhantom_of_sent fun j lt => ?_
    obtain ⟨k, inside, starts⟩ := clean j lt
    have at_k : ms[k]? = some ms[k] := List.getElem?_eq_getElem inside
    rcases starts with begins | ⟨p, digit, k', m, begins, at_p, at_k', overlap, rfl⟩
    · have at_0 : ms[k].encode[0]? = some (48 + espState ms[k].state) := by simp [encode_eq]
      obtain ⟨overlap, state⟩ := cut.stateAfter_of_begins lt at_k at_0 begins
      exact ⟨k, ms[k], at_k, overlap, by rw [state, digit_sub]⟩
    · have at_r : ms[k].encode[2 + p]? = some (48 + espState m.state) := by
        rw [encode_eq, Nat.add_comm, ← at_p, ← index_of_sent run at_k]
        rfl
      obtain ⟨-, state⟩ := cut.stateAfter_of_begins lt at_k at_r begins
      exact ⟨k', m, at_k', overlap, by rw [state, digit_sub]⟩

/-- Three safe cycles send `0_0`, `0_1` and `0_2`. A second read that brings only
the last digit runs the brake, though no message carries state 2. -/
theorem phantom_brake :
    ∃ ms,
      Cut (List.replicate 3 (CycleInput.still 100)) ms [[48, 95, 48, 48, 95, 49, 48, 95], [50]] ∧
        ¬ NoPhantom ms [[48, 95, 48, 48, 95, 49, 48, 95], [50]] := by
  have bound : LimitsBound (List.replicate 3 (CycleInput.still 100)) := by decide
  obtain ⟨e, run⟩ := thread_messages bound
  have readings : distances (List.replicate 3 (CycleInput.still 100)) = [100, 100, 100] := by
    simp [distances]
  rw [readings] at run
  refine ⟨_, ⟨⟨e, run⟩, by decide, by decide, ?_⟩, fun phantom => ?_⟩
  · decide +kernel
  · have safe : ∀ m ∈ messages [100, 100, 100], m.state ≠ .autobrake := by decide +kernel
    obtain ⟨m, mem, braking⟩ := phantom.brake (by decide)
    exact safe m mem braking

/-- Whole messages, one a read, start clean, and nothing is made up. -/
theorem noPhantom_iff_whole :
    ∃ ms, Cut (List.replicate 2 (CycleInput.still 100)) ms [[48, 95, 48], [48, 95, 49]] ∧
      NoPhantom ms [[48, 95, 48], [48, 95, 49]] := by
  have bound : LimitsBound (List.replicate 2 (CycleInput.still 100)) := by decide
  obtain ⟨e, run⟩ := thread_messages bound
  have readings : distances (List.replicate 2 (CycleInput.still 100)) = [100, 100] := by
    simp [distances]
  rw [readings] at run
  have cut : Cut _ (messages [100, 100]) [[48, 95, 48], [48, 95, 49]] :=
    ⟨⟨e, run⟩, by decide, by decide, by decide +kernel⟩
  refine ⟨_, cut, (noPhantom_iff cut).mpr fun j lt => ?_⟩
  -- Read `j` is message `j`.
  have both : j < (messages [100, 100]).length ∧
      offset [[(48 : UInt8), 95, 48], [48, 95, 49]] j =
        offset (written (messages [100, 100])) j := by
    revert j
    decide +kernel
  exact ⟨j, both.1, Or.inl both.2⟩

end Adas.Link
