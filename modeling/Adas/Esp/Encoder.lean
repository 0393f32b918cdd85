import Mathlib.Algebra.Order.Field.Rat
import Mathlib.Algebra.BigOperators.Group.List.Basic
import Mathlib.Data.List.Induction
import Mathlib.Tactic.NormNum
import Mathlib.Tactic.Positivity

/-!
The wheel encoders (`encoder_isr.c`).

`encoder_isr_handler` increments a counter per edge and can run between any two
steps of `get_rms_task`, which reads both counters, reports the speed, and only
then clears them. `edges_eq` accounts for every edge of the right wheel: reported,
still counted, or lost; the lost ones are those that come after the read and
before the clear of one round. So nothing is lost at a delay exactly when no edge
came there (`no_pulse_lost_iff`), and one that does is lost for good
(`edge_lost_while_sending`).

The unfinished wait at the start of the loop body is left out.
-/

namespace Adas.Esp

/-! ### The speed -/

def delayCalculateRpm : ℚ := 1000
def pulsesPerRevolution : ℚ := 40
def wheelCircumference : ℚ := 21.36283

/-- `right_speed`, from the value read of `cont_right_encoder`. -/
def rightSpeed (contRightEncoder : ℕ) : ℚ :=
  1000 * contRightEncoder / delayCalculateRpm / pulsesPerRevolution * wheelCircumference

theorem rightSpeed_eq (contRightEncoder : ℕ) :
    rightSpeed contRightEncoder = contRightEncoder / 40 * 21.36283 := by
  simp [rightSpeed, delayCalculateRpm, pulsesPerRevolution, wheelCircumference]

theorem rightSpeed_nonneg (contRightEncoder : ℕ) : 0 ≤ rightSpeed contRightEncoder := by
  rw [rightSpeed_eq]
  exact mul_nonneg (by positivity) (by norm_num)

/-! ### The task and the handler -/

/-- `GPIO_INPUT_LEFT_ENCODER` and `GPIO_INPUT_RIGHT_ENCODER`. -/
inductive Pin where
  | left | right
  deriving DecidableEq, Repr

/-- The step of the loop body that comes next. -/
inductive RmsStep where
  | computeLeft | computeRight | publish | print | resetLeft | resetRight | delay
  deriving DecidableEq, Repr

/-- The counters, the globals and locals of the task, and what it has put out:
`used` is the value of `cont_right_encoder` that `right_speed` was computed
from, and `reported` has it for every speed sent. -/
structure EncoderState where
  next : RmsStep
  contLeft : UInt32
  contRight : UInt32
  used : UInt32
  avgSpeed : ℚ
  reported : List UInt32
  printed : List UInt32

def EncoderState.init : EncoderState := ⟨.computeLeft, 0, 0, 0, 0, [], []⟩

/-- `encoder_isr_handler`. -/
def EncoderState.encoderIsrHandler (e : EncoderState) : Pin → EncoderState
  | .left => { e with contLeft := e.contLeft + 1 }
  | .right => { e with contRight := e.contRight + 1 }

/-- One step of the body of `get_rms_task`; the left speed it computes is not used. -/
def EncoderState.getRmsTask (e : EncoderState) : EncoderState :=
  match e.next with
  | .computeLeft => { e with next := .computeRight }
  | .computeRight => { e with next := .publish, used := e.contRight }
  | .publish =>
      { e with
        next := .print
        avgSpeed := rightSpeed e.used.toNat
        reported := e.reported ++ [e.used] }
  | .print => { e with next := .resetLeft, printed := e.printed ++ [e.contRight] }
  | .resetLeft => { e with next := .resetRight, contLeft := 0 }
  | .resetRight => { e with next := .delay, contRight := 0 }
  | .delay => { e with next := .computeLeft }

/-- What happens next: an edge, or a step of the task. -/
inductive EncoderEvent where
  | edge (pin : Pin)
  | task
  deriving DecidableEq, Repr

def EncoderState.step (e : EncoderState) : EncoderEvent → EncoderState
  | .edge pin => e.encoderIsrHandler pin
  | .task => e.getRmsTask

/-- The state after a schedule. -/
def encoderAfter (as : List EncoderEvent) : EncoderState :=
  as.foldl EncoderState.step EncoderState.init

@[simp] theorem encoderAfter_nil : encoderAfter [] = EncoderState.init := rfl

@[simp] theorem encoderAfter_snoc (as : List EncoderEvent) (a : EncoderEvent) :
    encoderAfter (as ++ [a]) = (encoderAfter as).step a := by
  simp [encoderAfter]

/-! ### Accounting -/

/-- The counter has been read in this round, and not cleared yet. -/
def RmsStep.ReadNotCleared (next : RmsStep) : Prop :=
  next = .publish ∨ next = .print ∨ next = .resetLeft ∨ next = .resetRight

instance (next : RmsStep) : Decidable next.ReadNotCleared := by
  unfold RmsStep.ReadNotCleared
  infer_instance

/-- The right-wheel edges that came between a read and its clear. -/
def lostEdges (as : List EncoderEvent) : ℕ :=
  (List.range as.length).countP fun k =>
    as[k]? = some (.edge .right) ∧ (encoderAfter (as.take k)).next.ReadNotCleared

/-- No right-wheel edge came between a read and its clear. -/
def Undisturbed (as : List EncoderEvent) : Prop :=
  ∀ before, before ++ [.edge .right] <+: as → ¬ (encoderAfter before).next.ReadNotCleared

/-- No right-wheel edge finds the counter at its largest value. -/
def NoWrap (as : List EncoderEvent) : Prop :=
  ∀ before, before ++ [.edge .right] <+: as → (encoderAfter before).contRight.toNat + 1 < 2 ^ 32

/-- The pulses in the speeds reported so far. -/
def reportedPulses (e : EncoderState) : ℕ := (e.reported.map UInt32.toNat).sum

/-- Every edge so far is in a speed reported or still counted. -/
def Conserved (as : List EncoderEvent) : Prop :=
  reportedPulses (encoderAfter as) + (encoderAfter as).contRight.toNat =
    as.count (.edge .right)

/-- Conserved whenever the task is at its delay. -/
def NoPulseLost (as : List EncoderEvent) : Prop :=
  ∀ done, done <+: as → (encoderAfter done).next = .delay → Conserved done

/-- The edges that the current round will have reported, or that stay counted:
the counter before the read, the value read until it is reported, and nothing of
the counter between there and the clear. -/
def EncoderState.pending (e : EncoderState) : ℕ :=
  match e.next with
  | .publish => e.used.toNat
  | .print | .resetLeft | .resetRight => 0
  | .computeLeft | .computeRight | .delay => e.contRight.toNat

theorem NoWrap.mono {as bs : List EncoderEvent} (fits : NoWrap bs) (h : as <+: bs) : NoWrap as :=
  fun before inside => fits before (inside.trans h)

theorem Undisturbed.mono {as bs : List EncoderEvent} (undisturbed : Undisturbed bs)
    (h : as <+: bs) : Undisturbed as :=
  fun before inside => undisturbed before (inside.trans h)

theorem lostEdges_snoc (as : List EncoderEvent) (a : EncoderEvent) :
    lostEdges (as ++ [a]) = lostEdges as +
      if a = .edge .right ∧ (encoderAfter as).next.ReadNotCleared then 1 else 0 := by
  have earlier : ∀ k ∈ List.range as.length,
      (decide ((as ++ [a])[k]? = some (.edge .right) ∧
        (encoderAfter ((as ++ [a]).take k)).next.ReadNotCleared) = true ↔
      decide (as[k]? = some (.edge .right) ∧
        (encoderAfter (as.take k)).next.ReadNotCleared) = true) := by
    intro k inside
    have lt := List.mem_range.mp inside
    rw [List.getElem?_append_left lt, List.take_append_of_le_length lt.le]
  rw [lostEdges, List.length_append, List.length_singleton, List.range_succ, List.countP_append,
    List.countP_congr earlier, List.countP_singleton]
  simp [lostEdges]

theorem lostEdges_eq_zero_iff {as : List EncoderEvent} : lostEdges as = 0 ↔ Undisturbed as := by
  induction as using List.reverseRecOn with
  | nil =>
      simp [lostEdges, Undisturbed]
  | append_singleton as a ih =>
      rw [lostEdges_snoc, Nat.add_eq_zero_iff, ih]
      constructor
      · rintro ⟨undisturbed, last⟩ before inside gap
        rcases List.prefix_concat_iff.mp inside with whole | earlier
        · obtain ⟨rfl, same⟩ := List.append_inj' whole rfl
          obtain rfl := List.singleton_inj.mp same
          simp [gap] at last
        · exact undisturbed before earlier gap
      · intro undisturbed
        refine ⟨undisturbed.mono (List.prefix_append _ _), if_neg ?_⟩
        rintro ⟨rfl, gap⟩
        exact undisturbed as List.prefix_rfl gap

/-! ### Where every edge goes -/

/-- A step of the task moves edges from `pending` to `reported`. -/
theorem pending_getRmsTask (e : EncoderState) :
    reportedPulses e.getRmsTask + e.getRmsTask.pending = reportedPulses e + e.pending := by
  cases h : e.next with
  | computeLeft => simp [EncoderState.getRmsTask, EncoderState.pending, reportedPulses, h]
  | computeRight => simp [EncoderState.getRmsTask, EncoderState.pending, reportedPulses, h]
  | publish => simp [EncoderState.getRmsTask, EncoderState.pending, reportedPulses, h]
  | print => simp [EncoderState.getRmsTask, EncoderState.pending, reportedPulses, h]
  | resetLeft => simp [EncoderState.getRmsTask, EncoderState.pending, reportedPulses, h]
  | resetRight => simp [EncoderState.getRmsTask, EncoderState.pending, reportedPulses, h]
  | delay => simp [EncoderState.getRmsTask, EncoderState.pending, reportedPulses, h]

/-- Before the read and after the clear, what the counter holds is pending. -/
theorem pending_of_open {e : EncoderState} (h : ¬ e.next.ReadNotCleared) :
    e.pending = e.contRight.toNat := by
  cases next : e.next with
  | computeLeft => simp only [EncoderState.pending, next]
  | computeRight => simp only [EncoderState.pending, next]
  | delay => simp only [EncoderState.pending, next]
  | _ => exact absurd (by simp [RmsStep.ReadNotCleared, next]) h

/-- Between the two, the counter does not matter. -/
theorem pending_edge_of_gap {e : EncoderState} (gap : e.next.ReadNotCleared) :
    (e.encoderIsrHandler .right).pending = e.pending := by
  rcases gap with next | next | next | next
  all_goals simp only [EncoderState.encoderIsrHandler, EncoderState.pending, next]

/-- A right-wheel edge is pending, unless it comes between read and clear. -/
theorem pending_edge (e : EncoderState) (fits : e.contRight.toNat + 1 < 2 ^ 32) :
    (e.encoderIsrHandler .right).pending + (if e.next.ReadNotCleared then 1 else 0) =
      e.pending + 1 := by
  by_cases gap : e.next.ReadNotCleared
  · rw [if_pos gap, pending_edge_of_gap gap]
  · have same : ¬ (e.encoderIsrHandler .right).next.ReadNotCleared := gap
    rw [if_neg gap, pending_of_open gap, pending_of_open same, Nat.add_zero]
    exact (UInt32.toNat_add _ _).trans (Nat.mod_eq_of_lt fits)

/-- Every right-wheel edge is in a speed reported, pending, or lost. -/
theorem edges_eq (as : List EncoderEvent) (fits : NoWrap as) :
    as.count (.edge .right) =
      reportedPulses (encoderAfter as) + (encoderAfter as).pending + lostEdges as := by
  induction as using List.reverseRecOn with
  | nil => rfl
  | append_singleton as a ih =>
      have before := ih (fits.mono (List.prefix_append _ _))
      rw [List.count_append, before, encoderAfter_snoc, lostEdges_snoc]
      cases a with
      | task =>
          have moved := pending_getRmsTask (encoderAfter as)
          have none : [EncoderEvent.task].count (.edge .right) = 0 := rfl
          simp only [EncoderState.step, none, reduceCtorEq, false_and, if_false, Nat.add_zero]
          omega
      | edge pin =>
          cases pin with
          | left => simp [EncoderState.step, EncoderState.encoderIsrHandler, EncoderState.pending,
              reportedPulses]
          | right =>
              have counted := pending_edge (encoderAfter as) (fits as List.prefix_rfl)
              have same : reportedPulses ((encoderAfter as).encoderIsrHandler .right) =
                  reportedPulses (encoderAfter as) := rfl
              simp only [EncoderState.step, same, List.count_singleton_self, true_and]
              omega

/-- At a delay, what is not lost is reported or still counted. -/
theorem conserved_iff_undisturbed {as : List EncoderEvent} (fits : NoWrap as)
    (delay : (encoderAfter as).next = .delay) : Conserved as ↔ Undisturbed as := by
  have total := edges_eq as fits
  have pending : (encoderAfter as).pending = (encoderAfter as).contRight.toNat :=
    pending_of_open (by simp [RmsStep.ReadNotCleared, delay])
  rw [← lostEdges_eq_zero_iff, Conserved, total, pending]
  omega

/-- No pulse is lost in a run exactly when no round of it that reaches its delay
was interrupted by a right-wheel edge between reading the counter and clearing it. -/
theorem no_pulse_lost_iff (as : List EncoderEvent) (fits : NoWrap as) :
    NoPulseLost as ↔
      ∀ done, done <+: as → (encoderAfter done).next = .delay → Undisturbed done := by
  constructor
  · intro conserved done inside delay
    exact (conserved_iff_undisturbed (fits.mono inside) delay).mp (conserved done inside delay)
  · intro undisturbed done inside delay
    exact (conserved_iff_undisturbed (fits.mono inside) delay).mpr (undisturbed done inside delay)

/-- The counter never holds more than the edges so far. -/
theorem contRight_le_count (as : List EncoderEvent) :
    (encoderAfter as).contRight.toNat ≤ as.count (.edge .right) := by
  induction as using List.reverseRecOn with
  | nil => rfl
  | append_singleton as a ih =>
      rw [encoderAfter_snoc, List.count_append]
      cases a with
      | task =>
          have falls : (encoderAfter as).getRmsTask.contRight.toNat ≤
              (encoderAfter as).contRight.toNat := by
            cases h : (encoderAfter as).next <;> simp [EncoderState.getRmsTask, h]
          exact Nat.le_add_right_of_le (falls.trans ih)
      | edge pin =>
          cases pin with
          | left => exact Nat.le_add_right_of_le ih
          | right =>
              have counts : ((encoderAfter as).contRight + 1).toNat ≤
                  (encoderAfter as).contRight.toNat + 1 := by
                rw [UInt32.toNat_add]
                exact Nat.mod_le _ _
              exact counts.trans (Nat.add_le_add_right ih 1)

/-- Fewer than 2^32 edges cannot wrap the counter, whatever the task does. -/
theorem noWrap_of_few {as : List EncoderEvent} (few : as.count (.edge .right) < 2 ^ 32) :
    NoWrap as := by
  intro before inside
  have counted := contRight_le_count before
  have more := inside.sublist.count_le (EncoderEvent.edge .right)
  rw [List.count_append, List.count_singleton_self] at more
  omega

/-- An edge during the delay is reported in the next round. -/
theorem no_pulse_lost_in_delay :
    NoPulseLost (List.replicate 7 .task ++ .edge .right :: List.replicate 6 .task) := by
  have fits : NoWrap (List.replicate 7 .task ++ .edge .right :: List.replicate 6 .task) :=
    noWrap_of_few (by decide)
  refine (no_pulse_lost_iff _ fits).mpr ?_
  intro done inside _
  exact (lostEdges_eq_zero_iff.mp (by decide)).mono inside

/-- One edge after the read of the first round: it is cleared without having been
reported. -/
theorem edge_lost_while_sending :
    ¬ NoPulseLost [.task, .task, .edge .right, .task, .task, .task, .task] := by
  intro conserved
  have lost := conserved _ List.prefix_rfl rfl
  cases lost

end Adas.Esp
