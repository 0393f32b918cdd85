import Mathlib.Data.List.SplitLengths
import Adas.Esp.Tasks
import Adas.Lib.Cut
import Adas.Lib.Decimal

/-!
Joystick frames through the Bluetooth stream.

The stack delivers the bytes of the frames in order, cut anywhere; `esp_spp_cb`
decodes bytes 1 to 6 of each payload and looks neither at its length nor at what
came before. A long enough payload decodes to what the stream has where it
begins (`axes_eq_axesAt`), and where a frame begins that is the frame
(`axesAt_frame`). `intact_iff_aligned` says which cuttings do no harm, whatever
the frames say; `frame_split` is one that does. That the others do takes two
streams: one whose frames all have the digits 0, but the header 1, so that a
payload decodes to their pair only where one begins (`axesAt_idle_ne`), and one
whose last frame differs from the ones before it.
-/

namespace Adas.Esp

open Lib

/-! ### Frames and payloads -/

/-- A header byte and two fields of three digits. -/
structure JoystickFrame where
  bytes : List UInt8
  length : bytes.length = 7
  digits : ∀ b ∈ bytes.tail, isDigit b = true

/-- The pair a payload decodes to. -/
def DataInd.axes (ind : DataInd) : Int8 × Int8 := (ind.xAxis, ind.yAxis)

/-- The pair a frame stands for. -/
def JoystickFrame.axes (f : JoystickFrame) : Int8 × Int8 := (DataInd.ofBytes f.bytes).axes

/-- The bytes of a payload. -/
def DataInd.payload (ind : DataInd) : List UInt8 := (List.range ind.len).map ind.data

/-- The indices `esp_spp_cb` reads, whatever the length. -/
def readIndices : List ℕ := [1, 2, 3, 4, 5, 6]

/-- The stream of some frames. -/
def sentFrames (frames : List JoystickFrame) : List UInt8 :=
  (frames.map JoystickFrame.bytes).flatten

/-- The frames' stream, cut into nonempty payloads. -/
structure Segmentation (frames : List JoystickFrame) (inds : List DataInd) : Prop where
  nonempty : ∀ ind ∈ inds, 0 < ind.len
  stream : (inds.map DataInd.payload).flatten = sentFrames frames

/-- Where payload `j` begins in the stream, from the lengths alone. -/
def begins (lens : List ℕ) (j : ℕ) : ℕ := (lens.take j).sum

/-- What the stream would decode to at a position. -/
def axesAt (stream : List UInt8) (p : ℕ) : Int8 × Int8 := (DataInd.ofBytes (stream.drop p)).axes

/-- The packets among the segments. -/
def indsOf (as : List Segment) : List DataInd :=
  as.filterMap fun
    | .dataInd ind => some ind
    | _ => none

/-- Every read is inside its payload, every pair handed to `mcpwm_motor_control`
is a frame's, and after all payloads, whatever else ran, the axes are the last
frame's. -/
structure Intact (frames : List JoystickFrame) (inds : List DataInd) : Prop where
  inBounds : ∀ ind ∈ inds, ∀ k ∈ readIndices, k < ind.len
  pairs : ∀ ind ∈ inds, ∃ f ∈ frames, ind.axes = f.axes
  last : ∀ f ∈ frames.getLast?, ∀ as e, run step EspState.init as = some e → indsOf as = inds →
    (e.xAxis, e.yAxis) = f.axes

/-- The lengths of a cutting of `n` frames: every payload has seven bytes and
begins a frame, and the last one begins the last frame. -/
structure Aligned (n : ℕ) (lens : List ℕ) : Prop where
  long : ∀ len ∈ lens, 7 ≤ len
  starts : ∀ j < lens.length, 7 ∣ begins lens j
  last : begins lens (lens.length - 1) = 7 * (n - 1)

/-! ### Decoding -/

/-- Only the bytes at those indices matter. -/
theorem axes_congr {ind ind' : DataInd} (same : ∀ k ∈ readIndices, ind.data k = ind'.data k) :
    ind.axes = ind'.axes := by
  simp only [readIndices, List.mem_cons, List.not_mem_nil, or_false, forall_eq_or_imp,
    forall_eq] at same
  obtain ⟨b₁, b₂, b₃, b₄, b₅, b₆⟩ := same
  simp only [DataInd.axes, DataInd.xAxis, DataInd.yAxis, DataInd.field, b₁, b₂, b₃, b₄, b₅, b₆]

theorem lt_seven_of_mem {k : ℕ} (mem : k ∈ readIndices) : k < 7 := by
  revert k
  decide

@[simp] theorem payload_length (ind : DataInd) : ind.payload.length = ind.len := by
  simp [DataInd.payload]

@[simp] theorem payload_ofBytes (bytes : List UInt8) : (DataInd.ofBytes bytes).payload = bytes := by
  refine List.ext_getElem (by simp [DataInd.ofBytes]) fun k _ inside => ?_
  simp [DataInd.payload, DataInd.ofBytes, List.getD_eq_getElem?_getD, inside]

/-- Bytes in a stream, read through `axesAt`. -/
theorem axesAt_eq {stream : List UInt8} {p : ℕ} {ind : DataInd}
    (found : ∀ k ∈ readIndices, stream[p + k]? = some (ind.data k)) :
    axesAt stream p = ind.axes := by
  refine axes_congr fun k mem => ?_
  simp [DataInd.ofBytes, List.getD_eq_getElem?_getD, List.getElem?_drop, found k mem]

theorem offset_frames {frames : List JoystickFrame} {k : ℕ} (inside : k ≤ frames.length) :
    offset (frames.map JoystickFrame.bytes) k = 7 * k := by
  refine offset_of_length ?_ (by simpa using inside)
  intro bytes mem
  obtain ⟨f, -, rfl⟩ := List.mem_map.mp mem
  exact f.length

theorem sentFrames_length (frames : List JoystickFrame) :
    (sentFrames frames).length = 7 * frames.length := by
  rw [sentFrames, ← offset_length, List.length_map, offset_frames le_rfl]

/-- Where a frame begins, the stream decodes to it. -/
theorem axesAt_frame {frames : List JoystickFrame} {k : ℕ} {f : JoystickFrame}
    (at_k : frames[k]? = some f) : axesAt (sentFrames frames) (7 * k) = f.axes := by
  have piece : (frames.map JoystickFrame.bytes)[k]? = some f.bytes := by simp [at_k]
  obtain ⟨lt, -⟩ := List.getElem?_eq_some_iff.mp at_k
  refine axesAt_eq fun i mem => ?_
  have inside : i < f.bytes.length := by
    rw [f.length]
    exact lt_seven_of_mem mem
  rw [sentFrames, ← offset_frames lt.le, getElem?_flatten_offset piece inside]
  simp [DataInd.ofBytes, List.getD_eq_getElem?_getD, inside]

theorem offset_payloads (inds : List DataInd) (j : ℕ) :
    offset (inds.map DataInd.payload) j = begins (inds.map DataInd.len) j := by
  rw [offset, begins, List.length_flatten, ← List.map_take, List.map_map, ← List.map_take]
  simp [Function.comp_def]

theorem begins_le_sum (lens : List ℕ) (j : ℕ) : begins lens j ≤ lens.sum := by
  rw [begins, ← List.sum_take_add_sum_drop lens j]
  exact Nat.le_add_right _ _

theorem begins_add_le {lens : List ℕ} {j : ℕ} (inside : j < lens.length) :
    begins lens j + lens[j] ≤ lens.sum := by
  have next : begins lens (j + 1) = begins lens j + lens[j] := List.sum_take_succ lens j inside
  exact next ▸ begins_le_sum lens (j + 1)

section Segmented

variable {frames : List JoystickFrame} {inds : List DataInd} (h : Segmentation frames inds)

include h

/-- A long enough payload decodes to what the stream has where it begins. -/
theorem axes_eq_axesAt {j : ℕ} {ind : DataInd} (at_j : inds[j]? = some ind) (long : 7 ≤ ind.len) :
    ind.axes = axesAt (sentFrames frames) (begins (inds.map DataInd.len) j) := by
  have piece : (inds.map DataInd.payload)[j]? = some ind.payload := by simp [at_j]
  refine (axesAt_eq fun k mem => ?_).symm
  have inside : k < ind.payload.length := by
    have := lt_seven_of_mem mem
    rw [payload_length]
    omega
  rw [← h.stream, ← offset_payloads, getElem?_flatten_offset piece inside]
  have lt : k < ind.len := by simpa using inside
  simp [DataInd.payload, lt]

/-- The lengths add up to the frames. -/
theorem sum_len : (inds.map DataInd.len).sum = 7 * frames.length := by
  rw [← sentFrames_length, ← h.stream, List.length_flatten, List.map_map]
  simp [Function.comp_def]

/-- A payload that begins at a multiple of seven begins a frame. -/
theorem exists_frame {j : ℕ} (inside : j < inds.length)
    (aligned : 7 ∣ begins (inds.map DataInd.len) j) :
    ∃ k f, frames[k]? = some f ∧ begins (inds.map DataInd.len) j = 7 * k := by
  obtain ⟨k, start⟩ := aligned
  have inside' : j < (inds.map DataInd.len).length := by simpa using inside
  have room := begins_add_le inside'
  have filled := h.nonempty _ (List.getElem_mem inside)
  rw [sum_len h, List.getElem_map] at room
  have lt : k < frames.length := by omega
  exact ⟨k, frames[k], List.getElem?_eq_getElem lt, start⟩

/-- If there is a frame there is a last payload. -/
theorem exists_last {f : JoystickFrame} (last : f ∈ frames.getLast?) :
    ∃ ind, inds.getLast? = some ind ∧ inds[inds.length - 1]? = some ind := by
  rcases List.eq_nil_or_concat inds with rfl | ⟨init, ind, rfl⟩
  · have empty := congrArg List.length h.stream
    rw [sentFrames_length] at empty
    have none : frames = [] := List.eq_nil_of_length_eq_zero (by simpa using empty.symm)
    simp [none] at last
  · exact ⟨ind, by simp, by simp⟩

end Segmented

/-! ### The axes after a run -/

theorem EspState.read_axes (e : EspState) (data : List UInt8) :
    ((e.read data).xAxis, (e.read data).yAxis) = (e.xAxis, e.yAxis) := by
  cases brakes : (e.reader.receive data).2 with
  | true => rw [read_of_brakes brakes]; rfl
  | false => rw [read_of_not_brakes brakes]

/-- The axes are those of the last packet, or still zero. -/
theorem axes_of_run {as : List Segment} {e : EspState} (ran : run step EspState.init as = some e) :
    (e.xAxis, e.yAxis) = ((indsOf as).getLast?.map DataInd.axes).getD (0, 0) := by
  refine run_induct
    (P := fun as e => (e.xAxis, e.yAxis) = ((indsOf as).getLast?.map DataInd.axes).getD (0, 0))
    rfl ?_ ran
  intro as e s e' before stepped
  rcases step_cases stepped with ⟨ind, rfl, rfl⟩ | ⟨data, rfl, -, rfl⟩ | ⟨rfl, -, rfl⟩
  · simp [indsOf, EspState.espSppCb, DataInd.axes]
  · rw [EspState.read_axes, before]
    simp [indsOf]
  · have kept : ((e.runUart e.brake).xAxis, (e.runUart e.brake).yAxis) = (e.xAxis, e.yAxis) := rfl
    rw [kept, before]
    simp [indsOf]

theorem indsOf_dataInds (inds : List DataInd) : indsOf (inds.map .dataInd) = inds := by
  rw [indsOf, List.filterMap_map]
  exact List.filterMap_some

/-! ### Aligned cuttings -/

/-- An aligned cutting harms no frame. -/
theorem intact_of_aligned {frames : List JoystickFrame} {inds : List DataInd}
    (segmented : Segmentation frames inds)
    (aligned : Aligned frames.length (inds.map DataInd.len)) : Intact frames inds := by
  have long : ∀ ind ∈ inds, 7 ≤ ind.len := fun ind mem =>
    aligned.long ind.len (List.mem_map_of_mem mem)
  refine ⟨fun ind mem k read => (lt_seven_of_mem read).trans_le (long ind mem), ?_, ?_⟩
  · intro ind mem
    obtain ⟨j, lt, rfl⟩ := List.getElem_of_mem mem
    obtain ⟨k, f, at_k, start⟩ := exists_frame segmented lt (aligned.starts j (by simpa using lt))
    rw [axes_eq_axesAt segmented (List.getElem?_eq_getElem lt) (long _ mem), start]
    exact ⟨f, List.mem_of_getElem? at_k, axesAt_frame at_k⟩
  · intro f isLast as e ran same
    obtain ⟨ind, final, at_last⟩ := exists_last segmented isLast
    have start := aligned.last
    rw [List.length_map] at start
    rw [axes_of_run ran, same, final, Option.map_some, Option.getD_some,
      axes_eq_axesAt segmented at_last (long _ (List.mem_of_getElem? at_last)), start]
    rw [Option.mem_def, List.getLast?_eq_getElem?] at isLast
    exact axesAt_frame isLast

/-! ### The other cuttings -/

/-- A stream, cut into payloads of given lengths. -/
def cutInds (lens : List ℕ) (frames : List JoystickFrame) : List DataInd :=
  (lens.splitLengths (sentFrames frames)).map DataInd.ofBytes

section CutInds

variable {lens : List ℕ} {frames : List JoystickFrame} (covers : lens.sum = 7 * frames.length)

include covers

theorem cutInds_len : (cutInds lens frames).map DataInd.len = lens := by
  rw [cutInds, List.map_map]
  exact List.map_splitLengths_length _ _ (by rw [covers, sentFrames_length])

theorem segmentation_cutInds (positive : ∀ len ∈ lens, 0 < len) :
    Segmentation frames (cutInds lens frames) := by
  constructor
  · intro ind mem
    refine positive _ ?_
    rw [← cutInds_len covers]
    exact List.mem_map_of_mem mem
  · rw [cutInds, List.map_map]
    simp only [Function.comp_def, payload_ofBytes, List.map_id']
    exact List.flatten_splitLengths _ _ (by rw [covers, sentFrames_length])

/-- Payload `j` of the cutting, when it is long enough. -/
theorem exists_cutInd (long : ∀ len ∈ lens, 7 ≤ len) {j : ℕ} (inside : j < lens.length) :
    ∃ ind, (cutInds lens frames)[j]? = some ind ∧
      ind.axes = axesAt (sentFrames frames) (begins lens j) := by
  have lengths := cutInds_len covers
  have segmented := segmentation_cutInds covers fun len mem => Nat.zero_lt_of_lt (long len mem)
  have lt : j < (cutInds lens frames).length := by
    rw [← lengths, List.length_map] at inside
    exact inside
  have enough : 7 ≤ (cutInds lens frames)[j].len := by
    have mem := List.mem_map_of_mem (f := DataInd.len) (List.getElem_mem lt)
    rw [lengths] at mem
    exact long _ mem
  refine ⟨_, List.getElem?_eq_getElem lt, ?_⟩
  rw [axes_eq_axesAt segmented (List.getElem?_eq_getElem lt) enough, lengths]

end CutInds

/-- A frame of zeros behind the header 1. -/
def idle : JoystickFrame := ⟨[49, 48, 48, 48, 48, 48, 48], rfl, by simp [isDigit]⟩

/-- A frame of a stick pushed ahead. -/
def ahead : JoystickFrame := ⟨[48, 50, 48, 48, 51, 48, 48], rfl, by simp [isDigit]⟩

theorem idle_ne_ahead : idle.axes ≠ ahead.axes := by decide

/-- The stream of idle frames: the header wherever a frame begins. -/
theorem sentFrames_idle {n p : ℕ} (inside : p < 7 * n) :
    (sentFrames (List.replicate n idle))[p]? = some (if p % 7 = 0 then 49 else 48) := by
  have count : p / 7 < n := Nat.div_lt_of_lt_mul inside
  have piece : ((List.replicate n idle).map JoystickFrame.bytes)[p / 7]? = some idle.bytes := by
    simp [count]
  have part : p % 7 < idle.bytes.length := Nat.mod_lt p (by decide)
  have found := getElem?_flatten_offset piece part
  rw [offset_frames (by simpa using count.le), Nat.div_add_mod] at found
  rw [sentFrames, found]
  revert part
  generalize p % 7 = r
  revert r
  decide

/-- A payload of the idle stream that begins `r` bytes into a frame. -/
def shifted (r : ℕ) : DataInd := ⟨7, fun k => if (r + k) % 7 = 0 then 49 else 48⟩

/-- Inside an idle frame the next header is read as a digit. -/
theorem axesAt_idle_ne {n p : ℕ} (inside : p + 7 ≤ 7 * n) (off : ¬ 7 ∣ p) :
    axesAt (sentFrames (List.replicate n idle)) p ≠ idle.axes := by
  have found : axesAt (sentFrames (List.replicate n idle)) p = (shifted (p % 7)).axes := by
    refine axesAt_eq fun k mem => ?_
    have read := lt_seven_of_mem mem
    rw [sentFrames_idle (by omega)]
    simp only [shifted, Nat.mod_add_mod]
  have part : p % 7 < 7 := Nat.mod_lt p (by decide)
  rw [Nat.dvd_iff_mod_eq_zero] at off
  rw [found]
  revert off
  revert part
  generalize p % 7 = r
  revert r
  decide

section Harmless

variable {n : ℕ} {lens : List ℕ} (covers : lens.sum = 7 * n)
  (intact : ∀ frames, frames.length = n → Intact frames (cutInds lens frames))

include covers intact

/-- The reads stay inside. -/
theorem long_of_intact : ∀ len ∈ lens, 7 ≤ len := by
  intro len mem
  have count : (List.replicate n idle).length = n := List.length_replicate
  have covers' : lens.sum = 7 * (List.replicate n idle).length := by rw [count, covers]
  rw [← cutInds_len covers'] at mem
  obtain ⟨ind, among, rfl⟩ := List.mem_map.mp mem
  exact (intact _ count).inBounds ind among 6 (by decide)

/-- Idle frames tell whether a payload begins a frame. -/
theorem starts_of_intact : ∀ j < lens.length, 7 ∣ begins lens j := by
  intro j inside
  by_contra off
  have long := long_of_intact covers intact
  have count : (List.replicate n idle).length = n := List.length_replicate
  have covers' : lens.sum = 7 * (List.replicate n idle).length := by rw [count, covers]
  obtain ⟨ind, at_j, axes⟩ := exists_cutInd covers' long inside
  obtain ⟨f, sent, same⟩ := (intact _ count).pairs ind (List.mem_of_getElem? at_j)
  rw [List.eq_of_mem_replicate sent, axes] at same
  have room := begins_add_le inside
  have enough := long _ (List.getElem_mem inside)
  exact axesAt_idle_ne (by omega) off same

/-- A last frame that differs from the others tells whether it is the one the last
payload begins. -/
theorem last_of_intact : begins lens (lens.length - 1) = 7 * (n - 1) := by
  have within := begins_le_sum lens (lens.length - 1)
  rcases n with _ | n
  · omega
  · by_contra early
    have long := long_of_intact covers intact
    have inside : lens.length - 1 < lens.length := by
      refine Nat.sub_one_lt fun empty => ?_
      rw [List.eq_nil_of_length_eq_zero empty] at covers
      cases covers
    have count : (List.replicate n idle ++ [ahead]).length = n + 1 := by simp
    have covers' : lens.sum = 7 * (List.replicate n idle ++ [ahead]).length := by
      rw [count, covers]
    obtain ⟨ind, at_last, axes⟩ := exists_cutInd covers' long inside
    -- The last payload begins one of the idle frames.
    obtain ⟨k, start⟩ := starts_of_intact covers intact _ inside
    have enough := long _ (List.getElem_mem inside)
    have room := begins_add_le inside
    have at_k : (List.replicate n idle ++ [ahead])[k]? = some idle := by
      rw [List.getElem?_append_left (by rw [List.length_replicate]; omega),
        List.getElem?_replicate_of_lt (by omega)]
    rw [start, axesAt_frame at_k] at axes
    -- But the axes it leaves are those of the last frame.
    have final : (cutInds lens (List.replicate n idle ++ [ahead])).getLast? = some ind := by
      rw [List.getLast?_eq_getElem?, ← List.length_map (f := DataInd.len), cutInds_len covers',
        at_last]
    have ran := run_dataInds EspState.init (cutInds lens (List.replicate n idle ++ [ahead]))
    have after := axes_of_run ran
    rw [(intact _ count).last ahead (by simp) _ _ ran (indsOf_dataInds _), indsOf_dataInds, final,
      Option.map_some, Option.getD_some, axes] at after
    exact idle_ne_ahead after.symm

end Harmless

/-! ### The law -/

/-- Payloads of given lengths do no harm to any frames exactly when they are
aligned with them. -/
theorem intact_iff_aligned (n : ℕ) (lens : List ℕ) (positive : ∀ len ∈ lens, 0 < len)
    (covers : lens.sum = 7 * n) :
    (∀ frames inds, frames.length = n → inds.map DataInd.len = lens →
      Segmentation frames inds → Intact frames inds) ↔ Aligned n lens := by
  constructor
  · intro harmless
    have intact : ∀ frames, frames.length = n → Intact frames (cutInds lens frames) := by
      rintro frames rfl
      exact harmless frames _ rfl (cutInds_len covers) (segmentation_cutInds covers positive)
    exact ⟨long_of_intact covers intact, starts_of_intact covers intact,
      last_of_intact covers intact⟩
  · rintro aligned frames inds rfl rfl segmented
    exact intact_of_aligned segmented aligned

/-- Two frames in two payloads. -/
theorem intact_iff_aligned_ahead :
    Intact [ahead, ahead] [DataInd.ofBytes ahead.bytes, DataInd.ofBytes ahead.bytes] := by
  have aligned : Aligned 2 [7, 7] := ⟨by decide, by decide, by decide⟩
  exact (intact_iff_aligned 2 [7, 7] (by decide) (by decide)).mpr aligned _ _ rfl rfl
    ⟨by decide, by simp [sentFrames]⟩

/-- One frame in two payloads: the first one has three bytes, and byte 6 is read. -/
theorem frame_split :
    ¬ ∀ frames inds, Segmentation frames inds → Intact frames inds := by
  intro always
  have cut : Segmentation [ahead]
      [DataInd.ofBytes [48, 50, 48], DataInd.ofBytes [48, 51, 48, 48]] :=
    ⟨by decide, by simp [sentFrames, ahead]⟩
  exact absurd ((always _ _ cut).inBounds _ List.mem_cons_self 6 (by decide)) (by decide)

end Adas.Esp
