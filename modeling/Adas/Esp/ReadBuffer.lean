import Adas.Esp.Joystick
import Adas.Esp.Substring

/-!
The block that `joystick_bluetooth_TASK` reads into (`uart.c`).

The task allocates one block and keeps it: each read writes what arrived to its
front, and leaves what an earlier read put behind that. `substr_to_int` takes the
fields at fixed places and never asks for `len`, so after a run the axes are made
of the newest byte at each place (`axes_newest`). A read of seven bytes or more
leaves nothing of the earlier ones in them, and a shorter one does
(`own_axes_iff`). With such reads both firmwares hold the same axes after every
run (`firmwares_agree`).
-/

namespace Adas.Esp

open Lib

/-! ### The task from read to read -/

/-- The block `data` and the two globals. -/
structure JoystickTask where
  data : ℕ → UInt8
  axes : Axes

/-- `malloc` leaves the block as it was. -/
def JoystickTask.init (block : ℕ → UInt8) : JoystickTask := ⟨block, ⟨0, 0⟩⟩

/-- `uart_read_bytes`: what arrived goes to the front of the block. -/
def readBytes (data : ℕ → UInt8) (arrived : List UInt8) : ℕ → UInt8 :=
  fun k => arrived.getD k (data k)

/-- One iteration. After a time-out nothing has arrived. -/
def JoystickTask.read (s : JoystickTask) (arrived : List UInt8) : JoystickTask :=
  let data := readBytes s.data arrived
  ⟨data, joystickBluetoothTask s.axes arrived.length data⟩

def JoystickTask.readAll (s : JoystickTask) (reads : List (List UInt8)) : JoystickTask :=
  reads.foldl JoystickTask.read s

@[simp] theorem JoystickTask.readAll_nil (s : JoystickTask) : s.readAll [] = s := rfl

@[simp] theorem JoystickTask.readAll_snoc (s : JoystickTask) (reads : List (List UInt8))
    (arrived : List UInt8) :
    s.readAll (reads ++ [arrived]) = (s.readAll reads).read arrived := by
  simp [readAll]

@[simp] theorem JoystickTask.read_nil (s : JoystickTask) : s.read [] = s := rfl

/-! ### The newest bytes -/

/-- Byte `k` of the last read that has one, or what the block held. -/
def newest (block : ℕ → UInt8) (reads : List (List UInt8)) (k : ℕ) : UInt8 :=
  (reads.filterMap (·[k]?)).getLast?.getD (block k)

/-- The axes in a block. -/
def axesIn (data : ℕ → UInt8) : Axes :=
  ⟨substrToInt data xAxisStartPos xAxisEndPos, substrToInt data yAxisStartPos yAxisEndPos⟩

theorem JoystickTask.read_axes (s : JoystickTask) {arrived : List UInt8} (some : arrived ≠ []) :
    (s.read arrived).axes = axesIn (readBytes s.data arrived) := by
  have positive : (arrived.length : ℤ) > 0 := by
    exact_mod_cast List.length_pos_iff.mpr some
  rw [read, joystickBluetoothTask, if_pos positive]
  rfl

theorem newest_snoc (block : ℕ → UInt8) (reads : List (List UInt8)) (arrived : List UInt8) :
    newest block (reads ++ [arrived]) = readBytes (newest block reads) arrived := by
  funext k
  cases here : arrived[k]? with
  | none => simp [newest, readBytes, List.getD_eq_getElem?_getD, here]
  | some byte => simp [newest, readBytes, List.getD_eq_getElem?_getD, here]

theorem data_newest (block : ℕ → UInt8) (reads : List (List UInt8)) :
    ((JoystickTask.init block).readAll reads).data = newest block reads := by
  induction reads using List.reverseRecOn with
  | nil => rfl
  | append_singleton reads arrived ih =>
      rw [JoystickTask.readAll_snoc, newest_snoc, ← ih]
      rfl

/-- After any run of reads the axes are decoded from the newest byte at each place,
whichever reads these came in; they are zero as long as nothing has arrived. -/
theorem axes_newest (block : ℕ → UInt8) (reads : List (List UInt8)) :
    ((JoystickTask.init block).readAll reads).axes =
      if reads.flatten = [] then ⟨0, 0⟩ else axesIn (newest block reads) := by
  induction reads using List.reverseRecOn with
  | nil => simp [JoystickTask.init]
  | append_singleton reads arrived ih =>
      rw [JoystickTask.readAll_snoc]
      by_cases none : arrived = []
      · -- A time-out changes neither the axes nor the newest bytes.
        have same : newest block (reads ++ [[]]) = newest block reads := by
          rw [newest_snoc]
          rfl
        rw [none, JoystickTask.read_nil, ih, same, List.flatten_append]
        simp
      · have some : (reads ++ [arrived]).flatten ≠ [] := by simp [none]
        rw [JoystickTask.read_axes _ none, if_neg some, newest_snoc, data_newest]

/-! ### What a read leaves of the ones before it -/

/-- A field depends on its own bytes alone: the one behind it, which is copied too,
makes room for the terminator. -/
theorem substrToInt_congr {data data' : ℕ → UInt8} {first last : UInt8} (order : first ≤ last)
    (fits : last.toNat - first.toNat + 2 < 256)
    (same : ∀ k, first.toNat ≤ k → k ≤ last.toNat → data k = data' k) :
    substrToInt data first last = substrToInt data' first last := by
  have bytes : substring data first.toNat last.toNat = substring data' first.toNat last.toNat := by
    refine List.map_congr_left fun k mem => same _ (Nat.le_add_right _ _) ?_
    have lt := List.mem_range.mp mem
    omega
  rw [substrToInt_eq order fits, substrToInt_eq order fits, bytes]

theorem axesIn_congr {data data' : ℕ → UInt8}
    (same : ∀ k, 1 ≤ k → k ≤ 6 → data k = data' k) : axesIn data = axesIn data' := by
  have x : substrToInt data xAxisStartPos xAxisEndPos =
      substrToInt data' xAxisStartPos xAxisEndPos := by
    refine substrToInt_congr (by decide) (by decide) fun k above below => ?_
    exact same k above (below.trans (by decide))
  have y : substrToInt data yAxisStartPos yAxisEndPos =
      substrToInt data' yAxisStartPos yAxisEndPos := by
    refine substrToInt_congr (by decide) (by decide) fun k above below => ?_
    exact same k (le_trans (by decide) above) below
  rw [axesIn, axesIn, x, y]

/-- Seven bytes leave nothing of the earlier reads in the fields. -/
theorem JoystickTask.read_axes_of_long (s : JoystickTask) {arrived : List UInt8}
    (long : 7 ≤ arrived.length) :
    (s.read arrived).axes = axesIn (DataInd.ofBytes arrived).data := by
  have some : arrived ≠ [] := List.length_pos_iff.mp (by omega)
  rw [read_axes s some]
  refine axesIn_congr fun k _ below => ?_
  have lt : k < arrived.length := by omega
  simp [readBytes, DataInd.ofBytes, List.getD_eq_getElem?_getD, lt]

/-- On digits the fields are those of `esp_spp_cb`. -/
theorem axesIn_digits (ind : DataInd)
    (digits : ∀ k, 1 ≤ k → k ≤ 6 → isDigit (ind.data k) = true) :
    axesIn ind.data = ⟨ind.xAxis, ind.yAxis⟩ := by
  have x : substrToInt ind.data xAxisStartPos xAxisEndPos = ind.xAxis := by
    refine substrToInt_eq_field (by decide) (by decide) fun k above below => ?_
    exact digits k above (below.trans (by decide))
  have y : substrToInt ind.data yAxisStartPos yAxisEndPos = ind.yAxis := by
    refine substrToInt_eq_field (by decide) (by decide) fun k above below => ?_
    exact digits k (le_trans (by decide) above) below
  rw [axesIn, x, y]

theorem ofInt_succ_ne (v : ℤ) : Int8.ofInt (v + 1) ≠ Int8.ofInt v := by
  intro same
  have wrapped := congrArg Int8.toInt same
  rw [Int8.toInt_ofInt, Int8.toInt_ofInt] at wrapped
  have off : Int.bmod (v + 1) Int8.size = Int.bmod (v + 0) Int8.size := by rwa [add_zero]
  exact absurd ((Int.bmod_add_cancel_left v).mp off) (by decide)

/-- The last digit of the second field tells two blocks apart. -/
theorem axesIn_ne {data data' : ℕ → UInt8}
    (digits : ∀ k, 1 ≤ k → k ≤ 5 → isDigit (data k) = true ∧ data' k = data k)
    (last : data 6 = 48) (last' : data' 6 = 49) : axesIn data' ≠ axesIn data := by
  have all (k : ℕ) (above : 1 ≤ k) (below : k ≤ 6) : isDigit (data k) = true := by
    rcases Nat.lt_or_eq_of_le below with lt | rfl
    · exact (digits k above (Nat.le_of_lt_succ lt)).1
    · rw [last]
      rfl
  have all' (k : ℕ) (above : 1 ≤ k) (below : k ≤ 6) : isDigit (data' k) = true := by
    rcases Nat.lt_or_eq_of_le below with lt | rfl
    · rw [(digits k above (Nat.le_of_lt_succ lt)).2]
      exact (digits k above (Nat.le_of_lt_succ lt)).1
    · rw [last']
      rfl
  have next : (⟨7, data'⟩ : DataInd).field 4 = (⟨7, data⟩ : DataInd).field 4 + 1 := by
    have fourth := (digits 4 (by decide) (by decide)).2
    have fifth := (digits 5 (by decide) (by decide)).2
    simp only [DataInd.field, Nat.reduceAdd, fourth, fifth, last, last']
    change _ + ((49 : ℤ) - 48) - 200 = _ + ((48 : ℤ) - 48) - 200 + 1
    ring
  intro same
  have axes := axesIn_digits ⟨7, data⟩ all
  have axes' := axesIn_digits ⟨7, data'⟩ all'
  rw [axes, axes'] at same
  have wrapped : Int8.ofInt ((⟨7, data'⟩ : DataInd).field 4) =
      Int8.ofInt ((⟨7, data⟩ : DataInd).field 4) := congrArg Axes.yAxis same
  rw [next] at wrapped
  exact ofInt_succ_ne _ wrapped

/-- After a read of digits the axes are this read's own, whatever the block held and
whatever was read before, exactly when it has seven bytes or more. -/
theorem own_axes_iff (last : List UInt8) (digits : ∀ b ∈ last.tail, isDigit b = true) :
    (∀ block block' earlier earlier',
      ((JoystickTask.init block).readAll (earlier ++ [last])).axes =
        ((JoystickTask.init block').readAll (earlier' ++ [last])).axes) ↔ 7 ≤ last.length := by
  constructor
  · intro own
    by_contra short
    -- Two frames that differ in their last byte, which the short read leaves alone.
    have same := own (fun _ => 48) (fun _ => 48) [List.replicate 6 48 ++ [49]]
      [List.replicate 7 48]
    rw [axes_newest, axes_newest, if_neg (by simp), if_neg (by simp), newest_snoc,
      newest_snoc] at same
    refine axesIn_ne ?_ ?_ ?_ same
    · intro k above below
      by_cases inside : k < last.length
      · have digit : isDigit last[k] = true := by
          refine digits _ ?_
          obtain ⟨i, rfl⟩ := Nat.exists_eq_add_of_le' above
          rw [← List.getElem_tail (by simpa using Nat.lt_sub_of_add_lt inside)]
          exact List.getElem_mem _
        simp [readBytes, List.getD_eq_getElem?_getD, inside, digit]
      · have past : last[k]? = none := List.getElem?_eq_none (not_lt.mp inside)
        interval_cases k <;> simp [readBytes, List.getD_eq_getElem?_getD, past, newest, isDigit]
    · have past : last[6]? = none := List.getElem?_eq_none (by omega)
      simp [readBytes, List.getD_eq_getElem?_getD, past, newest]
    · have past : last[6]? = none := List.getElem?_eq_none (by omega)
      simp [readBytes, List.getD_eq_getElem?_getD, past, newest]
  · intro long block block' earlier earlier'
    rw [JoystickTask.readAll_snoc, JoystickTask.readAll_snoc, JoystickTask.read_axes_of_long _ long,
      JoystickTask.read_axes_of_long _ long]

/-- One and a half frames: the second read takes its last digit from the first. -/
theorem own_axes_iff_torn :
    ¬ ∀ block block' earlier earlier',
      ((JoystickTask.init block).readAll (earlier ++ [[48, 50, 48, 48, 51, 48]])).axes =
        ((JoystickTask.init block').readAll (earlier' ++ [[48, 50, 48, 48, 51, 48]])).axes := by
  intro own
  have long := (own_axes_iff [48, 50, 48, 48, 51, 48] (by simp [isDigit])).mp own
  exact absurd long (by decide)

/-! ### The two firmwares -/

/-- A packet that both firmwares read alike: its fields are in it, and are digits. -/
structure WholePacket (arrived : List UInt8) : Prop where
  long : 7 ≤ arrived.length
  digits : ∀ k, 1 ≤ k → k ≤ 6 → isDigit (arrived.getD k 0) = true

/-- With whole packets the axes are those of the last one, or still zero. -/
theorem axes_of_whole (block : ℕ → UInt8) {reads : List (List UInt8)}
    (whole : ∀ arrived ∈ reads, arrived ≠ [] → WholePacket arrived) :
    ((JoystickTask.init block).readAll reads).axes =
      ((reads.filter (· ≠ [])).getLast?.map fun arrived =>
        ⟨(DataInd.ofBytes arrived).xAxis, (DataInd.ofBytes arrived).yAxis⟩).getD ⟨0, 0⟩ := by
  induction reads using List.reverseRecOn with
  | nil => rfl
  | append_singleton reads arrived ih =>
      rw [JoystickTask.readAll_snoc]
      by_cases none : arrived = []
      · rw [none, JoystickTask.read_nil, ih fun a mem => whole a (List.mem_append_left _ mem)]
        simp
      · have packet := whole arrived (by simp) none
        rw [JoystickTask.read_axes_of_long _ packet.long, axesIn_digits _ packet.digits]
        simp [none]

/-- Both firmwares hold the same axes after every run over the same whole packets,
whatever the one's block held at first, however many of its reads timed out, and
whatever the other one did between its packets. -/
theorem firmwares_agree (block : ℕ → UInt8) (reads : List (List UInt8))
    (whole : ∀ arrived ∈ reads, arrived ≠ [] → WholePacket arrived) (as : List Segment)
    (e : EspState) (ran : run step EspState.init as = some e)
    (same : indsOf as = (reads.filter (· ≠ [])).map DataInd.ofBytes) :
    ((JoystickTask.init block).readAll reads).axes = ⟨e.xAxis, e.yAxis⟩ := by
  have axes := axes_of_run ran
  rw [same, List.getLast?_map, Option.map_map] at axes
  rw [axes_of_whole block whole]
  cases last : (reads.filter (· ≠ [])).getLast? with
  | none =>
      rw [last] at axes
      obtain ⟨x, y⟩ := Prod.mk.inj axes
      rw [x, y]
      rfl
  | some arrived =>
      rw [last] at axes
      obtain ⟨x, y⟩ := Prod.mk.inj axes
      rw [x, y]
      rfl

/-- A packet, a time-out, and a packet with a line end; the other firmware brakes in
between. -/
theorem firmwares_agree_braking :
    let reads : List (List UInt8) := [ahead.bytes, [], ahead.bytes ++ [13, 10]]
    let as : List Segment := [.dataInd (DataInd.ofBytes ahead.bytes), .read [50],
      .dataInd (DataInd.ofBytes (ahead.bytes ++ [13, 10]))]
    ∃ e, run step EspState.init as = some e ∧
      ((JoystickTask.init fun _ => 0).readAll reads).axes = ⟨e.xAxis, e.yAxis⟩ := by
  intro reads as
  refine ⟨_, rfl, firmwares_agree _ reads ?_ as _ rfl rfl⟩
  intro arrived mem some
  simp only [reads, List.mem_cons, List.not_mem_nil, or_false] at mem
  have digits : ∀ k ≤ 6, 1 ≤ k → isDigit (ahead.bytes.getD k 0) = true := by decide
  have digits' : ∀ k ≤ 6, 1 ≤ k → isDigit ((ahead.bytes ++ [13, 10]).getD k 0) = true := by decide
  rcases mem with rfl | rfl | rfl
  · exact ⟨by decide, fun k above below => digits k below above⟩
  · exact absurd rfl some
  · exact ⟨by decide, fun k above below => digits' k below above⟩

end Adas.Esp
