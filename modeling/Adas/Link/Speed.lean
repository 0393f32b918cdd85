import Mathlib.Data.Rat.Floor
import Mathlib.Tactic.Linarith
import Adas.Ecu.Cycle
import Adas.Esp.Encoder
import Adas.Lib.Cut
import Adas.Lib.Lines
import Adas.Lib.PyFloat

/-!
The speed on the wire, from the ESP32 (`send_speed_to_ECU`) to the ECU
(`get_speed_via_serial_thread`).

The ESP32 splits the speed into two integers and prints them around a point, the
second one padded to four digits (`sendSpeedToEcu_eq`); the ECU reads a line and
calls `float`. What arrives is the speed cut off after four decimals
(`SpeedLine.pyFloat_line`), on the same side of every limit of the speed stages
(`onWire_lt_iff`), so that the decision loop runs the branch of the speed itself
(`setLimits_onWire`). A reader that opens the port in the middle of the stream
finds a fragment first, which is a number unless nothing of the line but its end
is left (`resyncs_iff`).
-/

namespace Adas.Link

open Lib Ecu Esp

/-! ### Writing -/

/-- A C conversion to an integer, toward zero. -/
def cTrunc (q : ℚ) : ℤ := q.num.tdiv q.den

/-- `sprintf` of an `int` with `%d` (width 0) or `%0` and a width. -/
def sprintfInt (width : ℕ) (value : Int32) : List UInt8 :=
  if value.toInt < 0 then 45 :: padZeros (width - 1) (printNat value.toInt.natAbs)
  else padZeros width (printNat value.toInt.natAbs)

/-- The byte of `\n`. -/
def newline : UInt8 := 10

/-- `send_speed_to_ECU`: the line it writes for `avg_speed`. -/
def sendSpeedToEcu (avgSpeed : ℚ) : List UInt8 :=
  let tmpVal := if avgSpeed < 0 then -avgSpeed else avgSpeed
  let tmpInt1 := Int32.ofInt (cTrunc tmpVal)
  let tmpFrac := tmpVal - tmpInt1.toInt
  let tmpInt2 := Int32.ofInt (cTrunc (tmpFrac * 10000))
  sprintfInt 0 tmpInt1 ++ 46 :: (sprintfInt 4 tmpInt2 ++ [newline])

/-! ### Reading -/

/-- `get_speed_via_serial_thread`: the values it stores in `current_speed`, one
for each line `readline` returns; `none` when a line raises, which ends the thread. -/
def getSpeedViaSerialThread (stream : List UInt8) : Option (List PyFloat) :=
  (lines newline stream).mapM pyFloat

/-- The branches of the chain on the speed. -/
inductive SpeedStage where
  | stage1 | stage2 | stage3 | none
  deriving DecidableEq, Repr

def speedStage (currentSpeed : ℚ) : SpeedStage :=
  if currentSpeed < lessThanValueStage1 then .stage1
  else if currentSpeed < lessThanValueStage2 then .stage2
  else if currentSpeed < lessThanValueStage3 then .stage3
  else .none

/-- The body of a branch: the limits it binds. -/
def SpeedStage.bindLimits (stage : SpeedStage) (e : EcuState) : EcuState :=
  match stage with
  | .stage1 =>
      { e with
        autobrakeDist := some autobrakeDistStage1
        collisionDist := some collisionDistState1 }
  | .stage2 =>
      { e with
        autobrakeDist := some autobrakeDistStage2
        collisionDist := some collisionDistState2 }
  | .stage3 =>
      { e with
        autobrakeDist := some autobrakeDistStage3
        collisionDist := some collisionDistState3 }
  | .none => e

/-- A cycle of the decision loop runs the body of the branch of its speed. -/
theorem setLimits_eq (e : EcuState) (currentSpeed : ℚ) :
    e.setLimits currentSpeed = (speedStage currentSpeed).bindLimits e := by
  unfold EcuState.setLimits speedStage
  split
  · rfl
  · split
    · rfl
    · split <;> rfl

/-! ### What arrives -/

/-- A speed cut off after four decimals. -/
def onWire (speed : ℚ) : ℚ := ⌊10000 * speed⌋ / 10000

theorem cTrunc_of_nonneg {q : ℚ} (nonneg : 0 ≤ q) : cTrunc q = ⌊q⌋ := by
  rw [cTrunc, Rat.floor_def', Int.tdiv_eq_ediv_of_nonneg (Rat.num_nonneg.mpr nonneg)]

/-- A small number converts to an `int` and prints as its digits. -/
theorem sprintfInt_ofInt {width n : ℕ} (fits : n < 2 ^ 31) :
    sprintfInt width (Int32.ofInt n) = padZeros width (printNat n) := by
  have value : (Int32.ofInt n).toInt = n := Int32.toInt_ofInt_of_le (by omega) (by omega)
  rw [sprintfInt, value, if_neg (by omega), Int.natAbs_natCast]

/-- The two integers of a line, and its shape. -/
theorem sendSpeedToEcu_eq {speed : ℚ} (nonneg : 0 ≤ speed) (fits : speed < 2 ^ 31) :
    ∃ whole fraction : ℕ, fraction < 10 ^ 4 ∧ (whole * 10 ^ 4 + fraction : ℤ) = ⌊10000 * speed⌋ ∧
      sendSpeedToEcu speed =
        printNat whole ++ 46 :: (padZeros 4 (printNat fraction) ++ [newline]) := by
  obtain ⟨whole, floor⟩ := Int.eq_ofNat_of_zero_le (Int.floor_nonneg.mpr nonneg)
  have below : (whole : ℚ) ≤ speed := by
    have := Int.floor_le speed
    rw [floor] at this
    exact_mod_cast this
  have above : speed < whole + 1 := by
    have := Int.lt_floor_add_one speed
    rw [floor] at this
    exact_mod_cast this
  have small : whole < 2 ^ 31 := by
    have : (whole : ℚ) < (2 ^ 31 : ℕ) := by
      push_cast
      linarith
    exact_mod_cast this
  have nonneg' : 0 ≤ (speed - whole) * 10000 := by linarith
  obtain ⟨fraction, floor'⟩ := Int.eq_ofNat_of_zero_le (Int.floor_nonneg.mpr nonneg')
  have four : fraction < 10 ^ 4 := by
    have : ⌊(speed - whole) * 10000⌋ < 10000 := by
      rw [Int.floor_lt]
      push_cast
      linarith
    omega
  refine ⟨whole, fraction, four, ?_, ?_⟩
  · have split : 10000 * speed = (speed - whole) * 10000 + ((whole * 10 ^ 4 : ℤ) : ℚ) := by
      push_cast
      ring
    rw [split, Int.floor_add_intCast, floor']
    omega
  · have value : (Int32.ofInt whole).toInt = whole :=
      Int32.toInt_ofInt_of_le (by omega) (by omega)
    have unpadded : padZeros 0 (printNat whole) = printNat whole := by simp [padZeros]
    simp only [sendSpeedToEcu, if_neg (not_lt.mpr nonneg), cTrunc_of_nonneg nonneg, floor, value,
      Int.cast_natCast, cTrunc_of_nonneg nonneg', floor']
    rw [sprintfInt_ofInt small, sprintfInt_ofInt (by omega), unpadded]

/-- The bytes of a line: digits, the point, four digits, the end; the digits are
the speed on the wire. -/
structure SpeedLine (speed : ℚ) (whole fraction : List UInt8) : Prop where
  line : sendSpeedToEcu speed = (whole ++ 46 :: fraction) ++ [newline]
  whole_digits : ∀ b ∈ whole, isDigit b = true
  fraction_digits : ∀ b ∈ fraction, isDigit b = true
  fraction_length : fraction.length = 4
  value : (number (whole ++ fraction) : ℚ) / 10 ^ 4 = onWire speed

theorem exists_speedLine {speed : ℚ} (nonneg : 0 ≤ speed) (fits : speed < 2 ^ 31) :
    ∃ whole fraction, SpeedLine speed whole fraction := by
  obtain ⟨whole, fraction, four, floor, line⟩ := sendSpeedToEcu_eq nonneg fits
  have padded : (padZeros 4 (printNat fraction)).length = 4 :=
    length_padZeros (length_printNat_le (by decide) four)
  refine ⟨printNat whole, padZeros 4 (printNat fraction), ?_, ?_, ?_, padded, ?_⟩
  · rw [line, List.append_assoc, List.cons_append]
  · exact fun b mem => isDigit_of_mem_printNat mem
  · exact fun b mem => isDigit_of_mem_padZeros (fun c mem => isDigit_of_mem_printNat mem) mem
  · rw [number_append, padded, number_padZeros, number_printNat, number_printNat, onWire, ← floor]
    norm_num

section Line

variable {speed : ℚ} {whole fraction : List UInt8} (h : SpeedLine speed whole fraction)

include h

theorem SpeedLine.numeric : ∀ b ∈ whole ++ 46 :: fraction, isNumeric b = true := by
  intro b mem
  rcases List.mem_append.mp mem with inside | inside
  · exact isNumeric_of_isDigit (h.whole_digits b inside)
  · rcases List.mem_cons.mp inside with rfl | inside
    · rfl
    · exact isNumeric_of_isDigit (h.fraction_digits b inside)

theorem SpeedLine.fraction_ne_nil : fraction ≠ [] := by
  rintro rfl
  have four := h.fraction_length
  cases four

theorem SpeedLine.isLine : IsLine newline (sendSpeedToEcu speed) := by
  refine ⟨_, fun mem => ?_, h.line⟩
  have numeric := h.numeric newline mem
  cases numeric

/-- What `float` makes of the whole line. -/
theorem SpeedLine.pyFloat_line :
    pyFloat (sendSpeedToEcu speed) = some (.finite (onWire speed)) := by
  rw [h.line, pyFloat_numeric h.numeric (by simp) (by simp [newline, isSpace]),
    mantissa_point h.whole_digits h.fraction_digits h.fraction_ne_nil, h.fraction_length, h.value,
    Option.map_some]

/-- What it makes of the end of a line: some number, as long as a byte of the
number is left. -/
theorem SpeedLine.pyFloat_fragment {rest : List UInt8} (cut : rest <:+ whole ++ 46 :: fraction)
    (nonempty : rest ≠ []) : ∃ value, pyFloat (rest ++ [newline]) = some (.finite value) := by
  have numeric : ∀ b ∈ rest, isNumeric b = true := fun b mem => h.numeric b (cut.subset mem)
  rw [pyFloat_numeric numeric nonempty (by simp [newline, isSpace])]
  obtain ⟨skipped, split⟩ := cut
  have point (digits : List UInt8) (all : ∀ b ∈ digits, isDigit b = true) :
      ∃ value, (mantissa (digits ++ 46 :: fraction)).map PyFloat.finite = some (.finite value) := by
    rw [mantissa_point all h.fraction_digits h.fraction_ne_nil]
    exact ⟨_, rfl⟩
  rcases List.append_eq_append_iff.mp split with ⟨digits, left, rfl⟩ | ⟨passed, -, left⟩
  · exact point digits fun b mem => h.whole_digits b (by simp [left, mem])
  · cases passed with
    | nil =>
        rw [List.nil_append] at left
        rw [← left]
        exact point [] fun b mem => absurd mem List.not_mem_nil
    | cons b passed =>
        obtain ⟨-, left⟩ := List.cons.inj left
        rw [mantissa_digits (fun b mem => h.fraction_digits b (by simp [left, mem])) nonempty]
        exact ⟨_, rfl⟩

end Line

/-! ### Every speed -/

theorem onWire_lt_iff {speed : ℚ} {limit : ℤ} : onWire speed < limit ↔ speed < limit := by
  rw [onWire, div_lt_iff₀ (by norm_num)]
  have scaled : (limit : ℚ) * 10000 = ((limit * 10000 : ℤ) : ℚ) := by push_cast; rfl
  rw [scaled, Int.cast_lt, Int.floor_lt, ← scaled]
  constructor
  · intro lt
    linarith
  · intro lt
    linarith

/-- Cutting a speed off moves it across no limit of a stage. -/
theorem speedStage_onWire (speed : ℚ) : speedStage (onWire speed) = speedStage speed := by
  have limit (n : ℤ) : onWire speed < n ↔ speed < n := onWire_lt_iff
  have limit1 : onWire speed < lessThanValueStage1 ↔ speed < lessThanValueStage1 := limit 5
  have limit2 : onWire speed < lessThanValueStage2 ↔ speed < lessThanValueStage2 := limit 25
  have limit3 : onWire speed < lessThanValueStage3 ↔ speed < lessThanValueStage3 := limit 80
  simp only [speedStage, limit1, limit2, limit3]

/-- The decision loop runs on the value that arrives what it would on the speed. -/
theorem setLimits_onWire (e : EcuState) (speed : ℚ) :
    e.setLimits (onWire speed) = (speedStage speed).bindLimits e := by
  rw [setLimits_eq, speedStage_onWire]

/-- Lines that `float` reads are read in order. -/
theorem mapM_pyFloat {α : Type} {line : α → List UInt8} {value : α → ℚ} {xs : List α}
    (reads : ∀ x ∈ xs, pyFloat (line x) = some (.finite (value x))) :
    (xs.map line).mapM pyFloat = some (xs.map fun x => .finite (value x)) := by
  induction xs with
  | nil => rfl
  | cons x xs ih =>
      rw [List.map_cons, List.mapM_cons, reads x List.mem_cons_self,
        ih fun y mem => reads y (List.mem_cons_of_mem _ mem)]
      rfl

/-- Any pulse counts: the ECU reads one value for each, the speed cut off after
four decimals; each test of the chain gives on it what it gives on the speed, and
the decision loop runs the branch of the speed itself. -/
theorem speed_round_trip (counts : List ℕ) (fits : ∀ c ∈ counts, rightSpeed c < 2 ^ 31) :
    getSpeedViaSerialThread (counts.flatMap fun c => sendSpeedToEcu (rightSpeed c)) =
        some (counts.map fun c => .finite (⌊10000 * rightSpeed c⌋ / 10000)) ∧
      ∀ c ∈ counts, ∀ v w : ℚ, v = rightSpeed c → w = ⌊10000 * v⌋ / 10000 →
        (w < 5 ↔ v < 5) ∧ (w < 25 ↔ v < 25) ∧ (w < 80 ↔ v < 80) ∧
          ∀ e : EcuState, e.setLimits w = (speedStage v).bindLimits e := by
  have sent : ∀ c ∈ counts, ∃ whole fraction, SpeedLine (rightSpeed c) whole fraction :=
    fun c mem => exists_speedLine (rightSpeed_nonneg c) (fits c mem)
  have branch : ∀ c ∈ counts, ∀ v w : ℚ, v = rightSpeed c → w = ⌊10000 * v⌋ / 10000 →
      (w < 5 ↔ v < 5) ∧ (w < 25 ↔ v < 25) ∧ (w < 80 ↔ v < 80) ∧
        ∀ e : EcuState, e.setLimits w = (speedStage v).bindLimits e := by
    rintro c - v w - rfl
    have limit (n : ℤ) : onWire v < n ↔ v < n := onWire_lt_iff
    exact ⟨limit 5, limit 25, limit 80, fun e => setLimits_onWire e v⟩
  refine ⟨?_, branch⟩
  rw [getSpeedViaSerialThread, List.flatMap_def, lines_flatten]
  · refine mapM_pyFloat fun c mem => ?_
    obtain ⟨whole, fraction, line⟩ := sent c mem
    exact line.pyFloat_line
  · intro line mem
    obtain ⟨c, inside, rfl⟩ := List.mem_map.mp mem
    obtain ⟨whole, fraction, line⟩ := sent c inside
    exact line.isLine

/-- 0, 47 and 150 pulses in a second: the first branch, the third one and none. -/
theorem speed_round_trip_three :
    getSpeedViaSerialThread ([0, 47, 150].flatMap fun c => sendSpeedToEcu (rightSpeed c)) =
        some [.finite 0, .finite 25.1013, .finite 80.1106] ∧
      (∀ e : EcuState, e.setLimits 0 = SpeedStage.stage1.bindLimits e) ∧
      (¬ (25.1013 : ℚ) < 25 ∧
        ∀ e : EcuState, e.setLimits 25.1013 = SpeedStage.stage3.bindLimits e) ∧
      (¬ (80.1106 : ℚ) < 80 ∧ ∀ e : EcuState, e.setLimits 80.1106 = e) := by
  obtain ⟨read, stages⟩ := speed_round_trip [0, 47, 150] (by decide +kernel)
  obtain ⟨-, -, -, first⟩ := stages 0 (by decide) _ 0 rfl (by decide +kernel)
  obtain ⟨-, second, -, third⟩ := stages 47 (by decide) _ 25.1013 rfl (by decide +kernel)
  obtain ⟨-, -, last, none⟩ := stages 150 (by decide) _ 80.1106 rfl (by decide +kernel)
  have stage1 : speedStage (rightSpeed 0) = .stage1 := by decide +kernel
  have stage3 : speedStage (rightSpeed 47) = .stage3 := by decide +kernel
  have beyond : speedStage (rightSpeed 150) = .none := by decide +kernel
  rw [stage1] at first
  rw [stage3] at third
  rw [beyond] at none
  refine ⟨?_, first, ⟨?_, third⟩, ?_, none⟩
  · rw [read]
    decide +kernel
  · rw [second]
    decide +kernel
  · rw [last]
    decide +kernel

/-! ### A reader that comes late -/

/-- From a suffix of the stream on: no line raises, and every line after the first
one is the speed it was written for, the last lines being those of the last speeds. -/
structure Resyncs (speeds : List ℚ) (suffix : List UInt8) : Prop where
  raisesNever : ∀ line ∈ lines newline suffix, pyFloat line ≠ none
  afterFirst : (lines newline suffix).tail.map pyFloat =
    (speeds.rtake ((lines newline suffix).length - 1)).map fun speed =>
      some (.finite (⌊10000 * speed⌋ / 10000))

theorem resyncs_nil (speeds : List ℚ) : Resyncs speeds [] :=
  ⟨by simp, by simp [List.rtake]⟩

/-- The lines of a cut stream: what is left of the line it was cut in, and then
the lines of the speeds after that one. -/
theorem lines_of_cut {after : List ℚ} {rest : List UInt8}
    (later : ∀ v ∈ after, ∃ whole fraction, SpeedLine v whole fraction) (inside : newline ∉ rest) :
    lines newline (rest ++ [newline] ++ (after.map sendSpeedToEcu).flatten) =
      (rest ++ [newline]) :: after.map sendSpeedToEcu := by
  rw [lines_append ⟨rest, inside, rfl⟩, lines_flatten]
  intro line mem
  obtain ⟨v, inside, rfl⟩ := List.mem_map.mp mem
  obtain ⟨whole, fraction, h⟩ := later v inside
  exact h.isLine

/-- Cut inside the line of one speed, the stream resynchronises exactly if a byte
of the number is left. -/
theorem resyncs_of_cut {before after : List ℚ} {speed : ℚ} {whole fraction rest : List UInt8}
    (h : SpeedLine speed whole fraction)
    (later : ∀ v ∈ after, ∃ whole fraction, SpeedLine v whole fraction)
    (cut : rest <:+ whole ++ 46 :: fraction) :
    Resyncs (before ++ speed :: after) (rest ++ [newline] ++ (after.map sendSpeedToEcu).flatten) ↔
      rest ≠ [] := by
  have inside : newline ∉ rest := fun mem => by
    have numeric := h.numeric newline (cut.subset mem)
    cases numeric
  have read := lines_of_cut later inside
  constructor
  · rintro ⟨raisesNever, -⟩ rfl
    refine raisesNever [newline] ?_ rfl
    rw [read]
    exact List.mem_cons_self
  · intro nonempty
    constructor
    · intro line mem
      rw [read] at mem
      rcases List.mem_cons.mp mem with rfl | mem
      · obtain ⟨value, reads⟩ := h.pyFloat_fragment cut nonempty
        simp [reads]
      · obtain ⟨v, inside, rfl⟩ := List.mem_map.mp mem
        obtain ⟨whole, fraction, line⟩ := later v inside
        simp [line.pyFloat_line]
    · have last : (before ++ speed :: after).rtake after.length = after := by
        rw [List.append_cons, List.rtake]
        refine List.drop_left' ?_
        simp only [List.length_append, List.length_cons, List.length_nil]
        omega
      rw [read, List.tail_cons, List.length_cons, List.length_map, Nat.add_sub_cancel, last,
        List.map_map]
      refine List.map_congr_left fun v inside => ?_
      obtain ⟨whole, fraction, line⟩ := later v inside
      exact line.pyFloat_line

/-- The reader resynchronises from every suffix of the stream but those that begin
with the end of a line. -/
theorem resyncs_iff (speeds : List ℚ) (nonneg : ∀ v ∈ speeds, 0 ≤ v)
    (fits : ∀ v ∈ speeds, v < 2 ^ 31) (suffix : List UInt8)
    (cut : suffix <:+ speeds.flatMap sendSpeedToEcu) :
    Resyncs speeds suffix ↔ suffix.head? ≠ some newline := by
  have sent : ∀ v ∈ speeds, ∃ whole fraction, SpeedLine v whole fraction :=
    fun v mem => exists_speedLine (nonneg v mem) (fits v mem)
  by_cases nonempty : suffix = []
  · subst nonempty
    simp [resyncs_nil]
  · rw [List.flatMap_def] at cut
    obtain ⟨before, piece, after, part, split, inside, filled, rfl⟩ := suffix_flatten cut nonempty
    obtain ⟨befores, others, rfl, -, split⟩ := List.map_eq_append_iff.mp split
    obtain ⟨speed, afters, rfl, rfl, rfl⟩ := List.map_eq_cons_iff.mp split
    obtain ⟨whole, fraction, line⟩ := sent speed (by simp)
    have later : ∀ v ∈ afters, ∃ whole fraction, SpeedLine v whole fraction :=
      fun v mem => sent v (by simp [mem])
    rw [line.line] at inside
    rcases List.suffix_concat_iff.mp inside with rfl | ⟨rest, rfl, left⟩
    · exact absurd rfl filled
    · rw [resyncs_of_cut line later left]
      cases rest with
      | nil => simp
      | cons b rest =>
          have numeric := line.numeric b (left.subset List.mem_cons_self)
          simp [ne_of_test numeric (c := newline) rfl]

/-- A port opened before the last digit of the first of two lines: the first
value is a wrong one, the second one is right. -/
theorem resyncs_iff_last_digit : Resyncs [1.5, 2.25] (48 :: newline :: sendSpeedToEcu 2.25) := by
  refine (resyncs_iff [1.5, 2.25] (by decide +kernel) (by decide +kernel) _ ?_).mpr (by decide)
  exact ⟨[49, 46, 53, 48, 48], by decide +kernel⟩

/-- A port opened right before the end of a line: `float` gets a line with no
number on it. -/
theorem raises_at_line_end :
    ¬ ∀ speeds : List ℚ, (∀ v ∈ speeds, 0 ≤ v) → (∀ v ∈ speeds, v < 2 ^ 31) → ∀ suffix,
      suffix <:+ speeds.flatMap sendSpeedToEcu → Resyncs speeds suffix := by
  intro always
  have cut : [newline] <:+ [1.5].flatMap sendSpeedToEcu :=
    ⟨[49, 46, 53, 48, 48, 48], by decide +kernel⟩
  exact (always [1.5] (by decide +kernel) (by decide +kernel) _ cut).raisesNever [newline]
    List.mem_cons_self rfl

end Adas.Link
