import Adas.Ecu.Batches
import Adas.Ecu.Fusion
import Adas.Link.Bytes

/-!
The whole: the threads of the ECU, statement by statement, beside the ESP32.

`Adas.Link.Bytes` lets the ECU take whole iterations. Here the sensor threads, the
serial thread and the decision loop interleave as they do in `Adas.Ecu.Threads`, and
the bytes of what the loop has sent are what the ESP32 can read. `whole_refines`
takes every run of it, moment by moment, down to one with whole iterations over the
batches the loop took. `samples_brake` is the guarantee of `Adas.Link.System` from
the samples of the sensors on, over the stream of bytes: what it takes of the reads
is that the last one begins with a message.
-/

namespace Adas.Link

open Lib Ecu Esp

/-! ### The system -/

/-- The ECU's threads, how many of the bytes they sent were read, the ESP32. -/
structure Whole where
  threads : Threads
  consumed : ℕ
  esp : EspState

def Whole.init : Whole := ⟨Threads.init, 0, EspState.init⟩

inductive WholeEvent where
  /-- A statement of one of the ECU's threads. -/
  | ecu (a : ThreadAction)
  | esp (e : EspEvent)

/-- The bytes sent. -/
def Whole.stream (s : Whole) : List UInt8 := (written s.threads.sent).flatten

/-- The bytes under way. -/
def Whole.unread (s : Whole) : List UInt8 := s.stream.drop s.consumed

def Whole.step (s : Whole) : WholeEvent → Option Whole
  | .ecu a => (s.threads.step a).map fun threads => { s with threads }
  | .esp e =>
      (e.step s.unread s.esp).map fun esp => { s with consumed := s.consumed + e.taken, esp }

theorem Whole.step_cases {s s' : Whole} {ev : WholeEvent} (h : s.step ev = some s') :
    (∃ a threads, ev = .ecu a ∧ s.threads.step a = some threads ∧ s' = { s with threads }) ∨
    (∃ e esp, ev = .esp e ∧ e.step s.unread s.esp = some esp ∧
      s' = { s with consumed := s.consumed + e.taken, esp }) := by
  cases ev with
  | ecu a =>
      obtain ⟨threads, moved, rfl⟩ := Option.map_eq_some_iff.mp h
      exact Or.inl ⟨a, threads, rfl, moved, rfl⟩
  | esp e =>
      obtain ⟨esp, moved, rfl⟩ := Option.map_eq_some_iff.mp h
      exact Or.inr ⟨e, esp, rfl, moved, rfl⟩

/-- The statements of the ECU. -/
def threadActions (evs : List WholeEvent) : List ThreadAction :=
  evs.filterMap fun
    | .ecu a => some a
    | .esp _ => none

/-- The events of the ESP32. -/
def espEvents (evs : List WholeEvent) : List EspEvent :=
  evs.filterMap fun
    | .ecu _ => none
    | .esp e => some e

/-- How many bytes the reads among the events took. -/
def bytesRead (evs : List WholeEvent) : ℕ := ((espEvents evs).map EspEvent.taken).sum

/-! ### Down to whole iterations -/

/-- Where a run of the whole is, and where the run of the other system is that does
the same with whole iterations. -/
structure Simulates (evs : List WholeEvent) (s : Whole) (p : Progress)
    (evs' : List ByteEvent) : Prop where
  threads : run Threads.step Threads.init (threadActions evs) = some s.threads
  follows : Follows (threadActions evs) s.threads p
  inside : s.consumed ≤ s.stream.length
  bytes : run ByteSystem.step ByteSystem.init evs' = some ⟨p.before, s.unread, s.esp⟩
  iterations : Link.iterations evs' = p.done.map TornInput.settled
  others : espOf evs' = espEvents evs

theorem simulates_init : Simulates [] Whole.init ⟨[], EcuState.init, fun _ => []⟩ [] :=
  ⟨rfl, follows_init, Nat.le_refl _, rfl, rfl, rfl⟩

/-- A statement of the ECU is the iterations it completes. -/
theorem Simulates.ecu {evs : List WholeEvent} {s : Whole} {p : Progress} {evs' : List ByteEvent}
    (h : Simulates evs s p evs') {a : ThreadAction} {threads : Threads}
    (stepped : s.threads.step a = some threads) :
    ∃ p' more, Simulates (evs ++ [.ecu a]) { s with threads } p' (evs' ++ more) := by
  obtain ⟨p', ⟨xs, done⟩, follows⟩ := h.follows.step (follows_of_run h.threads).1 stepped
  have ran := follows.done
  rw [← done] at ran
  obtain ⟨e, sent, sent', before, new, same⟩ := runOut_append_eq_ok.mp ran
  rw [h.follows.done] at before
  cases before
  rw [runOut_tornCycle] at new
  have grown : (written threads.sent).flatten = s.stream ++ (written sent').flatten := by
    simp [same, Whole.stream, written]
  have actions : threadActions (evs ++ [.ecu a]) = threadActions evs ++ [a] := by
    simp [threadActions]
  refine ⟨p', (xs.map TornInput.settled).map .cycle, ?_, ?_, ?_, ?_, ?_, ?_⟩
  · rw [actions]
    exact run_snoc_eq_some.mpr ⟨s.threads, h.threads, stepped⟩
  · rw [actions]
    exact follows
  · rw [Whole.stream, grown, List.length_append]
    exact Nat.le_add_right_of_le h.inside
  · have unread : ({ s with threads } : Whole).unread = s.unread ++ (written sent').flatten := by
      rw [Whole.unread, Whole.unread, ← List.drop_append_of_le_length h.inside, ← grown]
      rfl
    rw [unread]
    exact run_append_eq_some.mpr ⟨_, h.bytes, run_cycles new s.unread s.esp⟩
  · have new' : Link.iterations ((xs.map TornInput.settled).map .cycle) =
        xs.map TornInput.settled := by
      rw [Link.iterations, List.filterMap_map]
      exact List.filterMap_some
    rw [Link.iterations, List.filterMap_append, ← Link.iterations, ← Link.iterations, h.iterations,
      new', ← done, List.map_append]
  · have none : espOf ((xs.map TornInput.settled).map .cycle) = [] := by
      simp [espOf, List.filterMap_map]
    rw [espOf, List.filterMap_append, ← espOf, ← espOf, h.others, none]
    simp [espEvents]

/-- An event of the ESP32 is the same event there. -/
theorem Simulates.esp {evs : List WholeEvent} {s : Whole} {p : Progress} {evs' : List ByteEvent}
    (h : Simulates evs s p evs') {e : EspEvent} {esp : EspState}
    (stepped : e.step s.unread s.esp = some esp) :
    Simulates (evs ++ [.esp e]) { s with consumed := s.consumed + e.taken, esp } p
      (evs' ++ [.esp e]) := by
  have actions : threadActions (evs ++ [.esp e]) = threadActions evs := by simp [threadActions]
  have room := EspEvent.taken_le stepped
  refine ⟨by rw [actions]; exact h.threads, by rw [actions]; exact h.follows, ?_, ?_, ?_, ?_⟩
  · have inside := h.inside
    rw [Whole.unread, List.length_drop] at room
    simp only [Whole.stream] at room inside ⊢
    omega
  · have unread : ({ s with consumed := s.consumed + e.taken, esp } : Whole).unread =
        s.unread.drop e.taken := List.drop_drop.symm
    rw [unread]
    exact run_snoc_eq_some.mpr ⟨_, h.bytes, by simp [ByteSystem.step, stepped]⟩
  · rw [← h.iterations]
    simp [Link.iterations]
  · rw [espOf, List.filterMap_append, ← espOf, h.others]
    simp [espEvents]

/-- What a moment of a run amounts to: whole iterations over the batches taken by
then, and the same events of the ESP32, with the same bytes under way after them. -/
structure Amounts (evs : List WholeEvent) (s : Whole) (evs' : List ByteEvent) : Prop where
  bytes : ∃ ecu, run ByteSystem.step ByteSystem.init evs' = some ⟨ecu, s.unread, s.esp⟩
  batched : Batched (threadActions evs) s.threads (iterations evs')
  others : espOf evs' = espEvents evs

theorem Simulates.amounts {evs : List WholeEvent} {s : Whole} {p : Progress}
    {evs' : List ByteEvent} (h : Simulates evs s p evs') : Amounts evs s evs' :=
  ⟨⟨_, h.bytes⟩, by rw [h.iterations]; exact h.follows.batched, h.others⟩

/-- So does every moment before. -/
def AmountsThroughout (evs : List WholeEvent) (evs' : List ByteEvent) : Prop :=
  ∀ pre s, pre <+: evs → run Whole.step Whole.init pre = some s →
    ∃ pre', pre' <+: evs' ∧ Amounts pre s pre'

theorem AmountsThroughout.snoc {evs : List WholeEvent} {evs' more : List ByteEvent}
    {ev : WholeEvent} {s : Whole} (h : AmountsThroughout evs evs')
    (reached : run Whole.step Whole.init (evs ++ [ev]) = some s)
    (last : Amounts (evs ++ [ev]) s (evs' ++ more)) :
    AmountsThroughout (evs ++ [ev]) (evs' ++ more) := by
  intro pre s' within reached'
  rcases List.prefix_concat_iff.mp within with rfl | earlier
  · obtain rfl := Option.some.inj (reached.symm.trans reached')
    exact ⟨_, List.prefix_rfl, last⟩
  · obtain ⟨pre', within', amounts⟩ := h pre s' earlier reached'
    exact ⟨pre', within'.trans (List.prefix_append _ _), amounts⟩

theorem simulates_of_run {evs : List WholeEvent} {s : Whole}
    (reached : run Whole.step Whole.init evs = some s) :
    ∃ p evs', Simulates evs s p evs' ∧ AmountsThroughout evs evs' := by
  have start : AmountsThroughout [] [] := by
    intro pre s within reached'
    obtain rfl := List.prefix_nil.mp within
    cases reached'
    exact ⟨[], List.prefix_rfl, simulates_init.amounts⟩
  refine (run_induct (P := fun evs s => run Whole.step Whole.init evs = some s ∧
    ∃ p evs', Simulates evs s p evs' ∧ AmountsThroughout evs evs')
    ⟨rfl, _, _, simulates_init, start⟩ ?_ reached).2
  rintro evs s ev s' ⟨reached, p, evs', simulates, throughout⟩ stepped
  have reached' := run_snoc_eq_some.mpr ⟨s, reached, stepped⟩
  refine ⟨reached', ?_⟩
  rcases Whole.step_cases stepped with ⟨a, threads, rfl, moved, rfl⟩ | ⟨e, esp, rfl, moved, rfl⟩
  · obtain ⟨p', more, simulates'⟩ := simulates.ecu moved
    exact ⟨p', _, simulates', throughout.snoc reached' simulates'.amounts⟩
  · have simulates' := simulates.esp moved
    exact ⟨p, _, simulates', throughout.snoc reached' simulates'.amounts⟩

/-- Every run of the whole, whatever the order of the statements of the ECU's
threads and however its bytes are read, is one with whole iterations over batches of
the samples, with the same packets, reads and resumptions in the same order: at each
moment the same bytes are under way and the ESP32 is in the same state. -/
theorem whole_refines (evs : List WholeEvent) (s : Whole)
    (reached : run Whole.step Whole.init evs = some s) :
    ∃ evs', Amounts evs s evs' ∧ AmountsThroughout evs evs' := by
  obtain ⟨p, evs', simulates, throughout⟩ := simulates_of_run reached
  exact ⟨evs', simulates.amounts, throughout⟩

/-- An iteration beside a sample of the other sensor, a packet, and the message in
two reads. -/
def interleaved : List WholeEvent :=
  [.ecu (.sample .sensor0 10), .ecu (.sensor .sensor0), .ecu (.sample .sensor1 40),
    .ecu (.sensor .sensor0), .ecu (.sensor .sensor0)] ++ List.replicate 5 (.ecu .loop) ++
  [.ecu (.sensor .sensor1), .esp (.joystick (DataInd.ofBytes [48, 50, 48, 48, 51, 48, 48])),
    .ecu (.sensor .sensor1), .ecu (.sensor .sensor1)] ++ List.replicate 9 (.ecu .loop) ++
  [.esp (.read 2), .esp (.read 1)]

/-- The two samples are one batch. -/
theorem whole_refines_interleaved :
    ∃ s, run Whole.step Whole.init interleaved = some s ∧ ∃ evs', Amounts interleaved s evs' ∧
      AmountsThroughout interleaved evs' ∧ iterations evs' = [⟨[10], [40], 0⟩] := by
  have sends : (run Whole.step Whole.init interleaved).any
      (fun s => s.threads.Quiet ∧ s.threads.sent.length = 1) = true := by
    decide +kernel
  obtain ⟨s, reached, known⟩ := (Option.any_eq_true _ _).mp sends
  obtain ⟨quiet, one⟩ := of_decide_eq_true known
  obtain ⟨evs', amounts, throughout⟩ := whole_refines interleaved s reached
  refine ⟨s, reached, evs', amounts, throughout, ?_⟩
  have batched := amounts.batched
  have taken := batched.taken_eq quiet
  have standing := batched.standing (by simp [threadActions, interleaved])
  obtain ⟨x, only⟩ := List.length_eq_one_iff.mp (batched.length_eq.trans one)
  rw [only] at taken standing ⊢
  simp only [List.flatMap_singleton] at taken
  have x0 : x.sensor0Distances = [10] := taken .sensor0
  have x1 : x.sensor1Distances = [40] := taken .sensor1
  rw [← x0, ← x1, ← standing x List.mem_cons_self]

/-! ### The guarantee, from the samples -/

/-- Messages are only ever added. -/
theorem Threads.sent_step {s s' : Threads} {a : ThreadAction} (h : s.step a = some s') :
    s.sent <+: s'.sent := by
  rcases Threads.step_cases h with ⟨k, distance, -, -, rfl⟩ | ⟨k, -, moved⟩ | ⟨speed, -, rfl⟩ |
    ⟨-, moved⟩
  · exact List.prefix_rfl
  · rcases Threads.sensorStep_cases moved with ⟨d, -, -, rfl⟩ | ⟨d, -, rfl⟩ | ⟨-, rfl⟩
    · exact List.prefix_rfl
    · exact List.prefix_rfl
    · exact List.prefix_rfl
  · exact List.prefix_rfl
  · cases Threads.loopStep_cases moved with
    | send pc => exact List.prefix_append _ _
    | _ => exact List.prefix_rfl

section Run

variable {s s' : Whole} {evs : List WholeEvent}

theorem sent_of_run (ran : run Whole.step s evs = some s') :
    s.threads.sent <+: s'.threads.sent := by
  refine run_induct (P := fun _ t => s.threads.sent <+: t.threads.sent) List.prefix_rfl ?_ ran
  intro _ t ev t' before stepped
  rcases Whole.step_cases stepped with ⟨a, threads, rfl, moved, rfl⟩ | ⟨e, esp, rfl, -, rfl⟩
  · exact before.trans (Threads.sent_step moved)
  · exact before

theorem stream_of_run (ran : run Whole.step s evs = some s') : s.stream <+: s'.stream := by
  obtain ⟨more, grown⟩ := sent_of_run ran
  exact ⟨(written more).flatten, by simp [Whole.stream, ← grown, written]⟩

theorem consumed_of_run (ran : run Whole.step s evs = some s') :
    s'.consumed = s.consumed + bytesRead evs := by
  refine run_induct (P := fun evs t => t.consumed = s.consumed + bytesRead evs) rfl ?_ ran
  intro evs t ev t' before stepped
  rcases Whole.step_cases stepped with ⟨a, threads, rfl, -, rfl⟩ | ⟨e, esp, rfl, -, rfl⟩
  · simpa [bytesRead, espEvents] using before
  · simp only [before, bytesRead, espEvents, List.filterMap_append, List.map_append,
      List.sum_append, ← Nat.add_assoc]
    simp

theorem locked_of_whole (reached : run Whole.step Whole.init evs = some s) : Locked s.esp := by
  refine run_induct (P := fun _ t => Locked t.esp) locked_init ?_ reached
  intro _ t ev t' locked stepped
  rcases Whole.step_cases stepped with ⟨a, threads, rfl, -, rfl⟩ | ⟨e, esp, rfl, moved, rfl⟩
  · exact locked
  · exact EspEvent.step_locked locked moved

/-- Without a read the state stays. -/
theorem currentState_of_run (ran : run Whole.step s evs = some s')
    (quiet : ∀ n, .esp (.read n) ∉ evs) :
    s'.esp.reader.currentState = s.esp.reader.currentState := by
  revert quiet
  refine run_induct (P := fun evs t => (∀ n, .esp (.read n) ∉ evs) →
    t.esp.reader.currentState = s.esp.reader.currentState) (fun _ => rfl) ?_ ran
  intro evs t ev t' before stepped quiet
  have same := before fun n mem => quiet n (List.mem_append_left _ mem)
  rcases Whole.step_cases stepped with ⟨a, threads, rfl, -, rfl⟩ | ⟨e, esp, rfl, moved, rfl⟩
  · exact same
  · refine (EspEvent.step_other moved ?_).trans same
    rintro n rfl
    exact quiet n (by simp)

/-- After the last read the state is what the byte stands for that it began with. -/
theorem state_of_last_read {before after : List WholeEvent} {n : ℕ}
    (reached : run Whole.step Whole.init (before ++ .esp (.read n) :: after) = some s)
    (last : ∀ n, .esp (.read n) ∉ after) :
    ∃ byte, s.stream[bytesRead before]? = some byte ∧ s.esp.reader.currentState = byte - 48 := by
  obtain ⟨s₁, first, rest⟩ := run_append_eq_some.mp reached
  obtain ⟨s₂, stepped, later⟩ := run_cons_eq_some.mp rest
  rcases Whole.step_cases stepped with ⟨a, threads, same, -⟩ | ⟨e, esp, same, moved, rfl⟩
  · cases same
  cases same
  obtain ⟨byte, head, state⟩ := EspEvent.step_read moved
  have position : s₁.consumed = bytesRead before := (consumed_of_run first).trans (Nat.zero_add _)
  refine ⟨byte, ?_, (currentState_of_run later last).trans state⟩
  obtain ⟨more, grown⟩ := stream_of_run rest
  rw [Whole.unread, List.head?_drop, position] at head
  rw [← grown, List.getElem?_append_left (List.getElem?_eq_some_iff.mp head).1]
  exact head

end Run

/-- Where message `k` begins in the stream, its state digit stands. -/
theorem state_of_begins {ds : List ℚ} {k : ℕ} {byte : UInt8}
    (at_begin : (written (messages ds)).flatten[offset (written (messages ds)) k]? = some byte) :
    byte - 48 = espState (reference (ds.take (k + 1))).state := by
  have inside : k < (messages ds).length := by
    by_contra beyond
    rw [offset, List.take_of_length_le (by simpa [written] using beyond),
      List.getElem?_eq_none le_rfl] at at_begin
    cases at_begin
  have at_k : (messages ds)[k]? = some (messages ds)[k] := List.getElem?_eq_getElem inside
  have piece : (written (messages ds))[k]? = some (messages ds)[k].encode := by
    rw [written, List.getElem?_map, at_k]
    rfl
  have found := getElem?_flatten_offset piece (encode_length_pos _)
  rw [Nat.add_zero, at_begin, encode_eq, List.getElem?_cons_zero, Option.some.injEq] at found
  rw [found, digit_sub, (messages_getElem? at_k).2.1]

/-- Most of what a sensor sampled since the last iteration is below the limit. -/
def Near (x : CycleInput) : Prop := ∃ k, Majority (· < (16 : ℚ)) (x.batch k)

theorem zone_of_near {x : CycleInput} (near : Near x) : zone x.lessDistance = .autobrake := by
  obtain ⟨k, most⟩ := near
  refine zone_autobrake_iff.mpr ?_
  cases k with
  | sensor0 => exact min_lt_of_left_lt (sensorMedian_lt most)
  | sensor1 => exact min_lt_of_right_lt (sensorMedian_lt most)

/-- Eight iterations in a row, each of which finds most of the samples of one of the
two sensors below 16 cm: while the last read of the ESP32 is one that begins with the
message of the last of them, no motor is driven forward, whatever the order of the
statements of the ECU's threads, however the bytes before were read, and whatever
packets come. -/
theorem samples_brake (evs : List WholeEvent) (s : Whole)
    (reached : run Whole.step Whole.init evs = some s) :
    ∃ xs, xs.length = s.threads.sent.length ∧ BatchedThroughout (threadActions evs) xs ∧
      ∀ before n after, evs = before ++ .esp (.read n) :: after →
        (∀ n, .esp (.read n) ∉ after) →
        ∀ k, bytesRead before = offset (written s.threads.sent) k →
          ∀ earlier danger, xs.take (k + 1) = earlier ++ danger → 8 ≤ danger.length →
            (∀ x ∈ danger, Near x) → ∀ t, ¬ (s.esp.outputs.mcpwm t .a).Driven := by
  obtain ⟨p, evs', simulates, -⟩ := simulates_of_run reached
  obtain ⟨q, follows, throughout⟩ := follows_throughout simulates.threads
  have batched := follows.batched
  refine ⟨_, batched.length_eq, throughout, ?_⟩
  rintro before n after rfl last k position earlier danger split eight near t
  obtain ⟨byte, at_position, state⟩ := state_of_last_read reached last
  obtain ⟨ecu, sent⟩ := batched.sent
  rw [position, Whole.stream, (after_of_run sent).sent] at at_position
  have close : ∀ d ∈ distances danger, zone d = .autobrake := by
    intro d mem
    obtain ⟨x, inside, rfl⟩ := List.mem_map.mp mem
    exact zone_of_near (near x inside)
  have braking := braking_of_eight (distances earlier) close (by simpa [distances] using eight)
  refine not_driven_of_low ((locked_of_whole reached).low ?_ t)
  rw [state, state_of_begins at_position, distances_take, split, distances_append, braking]
  rfl

/-- Eight readings of 10 cm by one sensor; seven of their messages in one read, the
eighth in another, and full speed ahead. -/
theorem samples_brake_ahead :
    let reading : List ThreadAction := .sample .sensor0 10 ::
      List.replicate 3 (.sensor .sensor0) ++ List.replicate 13 .loop
    let before : List WholeEvent :=
      (List.replicate 8 reading).flatten.map .ecu ++ [.esp (.read 21)]
    let after : List WholeEvent := [.esp (.joystick (DataInd.ofBytes [48, 50, 48, 48, 51, 48, 48]))]
    ∃ s, run Whole.step Whole.init (before ++ .esp (.read 3) :: after) = some s ∧
      BatchedThroughout (threadActions (before ++ .esp (.read 3) :: after))
        (List.replicate 8 ⟨[10], [], 0⟩) ∧
      ∀ t, ¬ (s.esp.outputs.mcpwm t .a).Driven := by
  intro reading before after
  have actions : threadActions (before ++ .esp (.read 3) :: after) =
      (List.replicate 8 reading).flatten := by
    simp [threadActions, before, after, List.filterMap_map]
  have runs : (run Whole.step Whole.init (before ++ .esp (.read 3) :: after)).any
      (fun s => s.threads.sent.length = 8 ∧ offset (written s.threads.sent) 7 = 21) = true := by
    decide +kernel
  have moments : ∀ n ≤ 8, (run Threads.step Threads.init (List.replicate n reading).flatten).any
      (fun s => s.Quiet ∧ s.sent.length = n) = true := by
    decide +kernel
  obtain ⟨s, reached, known⟩ := (Option.any_eq_true _ _).mp runs
  obtain ⟨eight, position⟩ := of_decide_eq_true known
  obtain ⟨xs, length, throughout, brakes⟩ := samples_brake _ s reached
  have count : xs.length = 8 := length.trans eight
  have batches : xs = List.replicate 8 ⟨[10], [], 0⟩ := by
    refine List.eq_replicate_iff.mpr ⟨count, fun x mem => ?_⟩
    rw [actions, ← count] at throughout
    have batch := throughout.batch_of_repeated (by rwa [count]) x mem
    obtain ⟨s', reached', known'⟩ := (Option.any_eq_true _ _).mp (moments 8 le_rfl)
    have batched := throughout.batched (by rwa [count])
      (count.trans (of_decide_eq_true known').2.symm)
    have x0 : x.sensor0Distances = [10] := batch .sensor0
    have x1 : x.sensor1Distances = [] := batch .sensor1
    rw [← x0, ← x1, ← batched.standing (by simp [reading]) x mem]
  subst batches
  refine ⟨s, reached, throughout, brakes before 3 after rfl ?_ 7 ?_ []
    (List.replicate 8 ⟨[10], [], 0⟩) rfl ?_ ?_⟩
  · simp [after]
  · rw [position]
    rfl
  · simp
  · intro x mem
    rw [List.eq_of_mem_replicate mem]
    exact ⟨.sensor0, by decide +kernel⟩

end Adas.Link
