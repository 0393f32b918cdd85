import Adas.Esp.Command

/-!
All of the Bluetooth callback (`esp_spp_cb`, `bt_handler.c`).

Of its events only the data event reaches the motors. Opening and closing the
connection switch an LED, and the others are logged: a car that loses its joystick
drives on with the last command until the ECU brakes (`drives_on_iff`), and it
neither stops nor starts for anything else that the ECU says.
-/

namespace Adas.Esp

open Lib

/-! ### The callback -/

/-- `esp_spp_cb_event_t`, with what the callback reads of the data event. -/
inductive SppEvent where
  | initEvt
  | discoveryCompEvt
  | openEvt
  | closeEvt
  | startEvt
  | clInitEvt
  | dataIndEvt (ind : DataInd)
  | congEvt
  | writeEvt
  | srvOpenEvt
  /-- `default` -/
  | other

/-- The two tasks, and the LED on `BLINK_GPIO`. -/
structure Firmware where
  esp : EspState
  blinkGpio : Bool

def Firmware.init : Firmware := ⟨EspState.init, false⟩

/-- `esp_spp_cb`. The server that `ESP_SPP_INIT_EVT` starts is not part of the state. -/
def Firmware.espSppCb (f : Firmware) : SppEvent → Firmware
  | .initEvt => f
  | .discoveryCompEvt => f
  | .openEvt => f
  | .closeEvt => { f with blinkGpio := false }
  | .startEvt => f
  | .clInitEvt => f
  | .dataIndEvt ind => { f with esp := f.esp.espSppCb ind }
  | .congEvt => f
  | .writeEvt => f
  | .srvOpenEvt => { f with blinkGpio := true }
  | .other => f

inductive FirmwareAction where
  | spp (event : SppEvent)
  | read (data : List UInt8)
  | resume

def Firmware.step (f : Firmware) : FirmwareAction → Option Firmware
  | .spp event => some (f.espSppCb event)
  | .read data => (Esp.step f.esp (.read data)).map fun esp => { f with esp }
  | .resume => (Esp.step f.esp .resume).map fun esp => { f with esp }

/-- The segment of an action, if it is one. -/
def FirmwareAction.segment? : FirmwareAction → Option Segment
  | .spp (.dataIndEvt ind) => some (.dataInd ind)
  | .spp _ => none
  | .read data => some (.read data)
  | .resume => some .resume

def segmentsOf (as : List FirmwareAction) : List Segment := as.filterMap FirmwareAction.segment?

theorem FirmwareAction.segment?_dataInd {a : FirmwareAction} {ind : DataInd}
    (h : a.segment? = some (.dataInd ind)) : a = .spp (.dataIndEvt ind) := by
  cases a with
  | spp event =>
      cases event with
      | dataIndEvt other =>
          cases h
          rfl
      | _ => cases h
  | read data => cases h
  | resume => cases h

/-- An action is its segment, or leaves the two tasks alone. -/
theorem Firmware.step_cases {f f' : Firmware} {a : FirmwareAction} (h : f.step a = some f') :
    (∃ s, a.segment? = some s ∧ Esp.step f.esp s = some f'.esp) ∨
    (a.segment? = none ∧ f'.esp = f.esp) := by
  cases a with
  | spp event =>
      obtain rfl := Option.some.inj h
      cases event with
      | dataIndEvt ind => exact Or.inl ⟨.dataInd ind, rfl, rfl⟩
      | _ => exact Or.inr ⟨rfl, rfl⟩
  | read data =>
      obtain ⟨esp, stepped, rfl⟩ := Option.map_eq_some_iff.mp h
      exact Or.inl ⟨.read data, rfl, stepped⟩
  | resume =>
      obtain ⟨esp, stepped, rfl⟩ := Option.map_eq_some_iff.mp h
      exact Or.inl ⟨.resume, rfl, stepped⟩

/-- The two tasks run through their segments, whatever else the callback handles. -/
theorem run_segmentsOf {as : List FirmwareAction} {f f' : Firmware}
    (ran : run Firmware.step f as = some f') :
    run step f.esp (segmentsOf as) = some f'.esp := by
  refine run_induct (P := fun as f' => run step f.esp (segmentsOf as) = some f'.esp) rfl ?_ ran
  intro as g a g' before stepped
  rcases Firmware.step_cases stepped with ⟨s, isSegment, moved⟩ | ⟨notSegment, same⟩
  · simpa [segmentsOf, isSegment] using run_snoc_eq_some.mpr ⟨g.esp, before, moved⟩
  · simpa [segmentsOf, notSegment, same] using before

/-! ### Without packets -/

/-- The reader after some reads, and whether one of them braked. -/
def receiveFrom (r : Reader) (reads : List (List UInt8)) : Reader × Bool :=
  reads.foldl (fun (r, brakes) data => ((r.receive data).1, brakes || (r.receive data).2))
    (r, false)

@[simp] theorem receiveFrom_nil (r : Reader) : receiveFrom r [] = (r, false) := rfl

@[simp] theorem receiveFrom_snoc (r : Reader) (reads : List (List UInt8)) (data : List UInt8) :
    receiveFrom r (reads ++ [data]) =
      (((receiveFrom r reads).1.receive data).1,
        (receiveFrom r reads).2 || ((receiveFrom r reads).1.receive data).2) := by
  simp [receiveFrom]

/-- What the car does from the last packet on: the same, and nothing but the brake
after the first brake. -/
structure Unsteered (c₀ : Car) (bs : List Segment) (c : Car) : Prop where
  reader : c.reader = (receiveFrom c₀.reader (readsOf bs)).1
  before : (receiveFrom c₀.reader (readsOf bs)).2 = false → c.phase = .idle ∧ c.drive = c₀.drive
  after : (receiveFrom c₀.reader (readsOf bs)).2 = true → c.Braked

theorem Unsteered.step {c₀ c c' : Car} {bs : List Segment} {s : Segment} (h : Unsteered c₀ bs c)
    (stepped : c.step s = some c') (other : ∀ ind, s ≠ .dataInd ind) :
    Unsteered c₀ (bs ++ [s]) c' := by
  have braked := fun brakes => (h.after brakes).step stepped other
  rcases Car.step_cases stepped with ⟨ind, rfl, rfl⟩ | ⟨data, rfl, -, brakes, rfl⟩ |
    ⟨data, rfl, -, quiet, rfl⟩ | ⟨rfl, reversing, rfl⟩ | ⟨rfl, standing, rfl⟩
  · exact absurd rfl (other ind)
  · have reads : readsOf (bs ++ [.read data]) = readsOf bs ++ [data] := by simp [readsOf]
    refine ⟨?_, ?_, fun _ => fun t => rfl⟩
    · rw [reads, receiveFrom_snoc, ← h.reader]
    · rw [reads, receiveFrom_snoc, ← h.reader, brakes]
      simp
  · have reads : readsOf (bs ++ [.read data]) = readsOf bs ++ [data] := by simp [readsOf]
    refine ⟨?_, ?_, ?_⟩
    · rw [reads, receiveFrom_snoc, ← h.reader]
    · rw [reads, receiveFrom_snoc, ← h.reader, quiet, Bool.or_false]
      exact h.before
    · rw [reads, receiveFrom_snoc, ← h.reader, quiet, Bool.or_false]
      exact braked
  · have reads : readsOf (bs ++ [.resume]) = readsOf bs := by simp [readsOf]
    refine ⟨by rw [reads]; exact h.reader, ?_, fun _ => fun t => rfl⟩
    rw [reads]
    intro none
    have idle := (h.before none).1
    rw [reversing] at idle
    cases idle
  · have reads : readsOf (bs ++ [.resume]) = readsOf bs := by simp [readsOf]
    refine ⟨by rw [reads]; exact h.reader, ?_, by rw [reads]; exact braked⟩
    rw [reads]
    intro none
    have idle := (h.before none).1
    rw [standing] at idle
    cases idle

theorem unsteered_of_run {c₀ c : Car} {bs : List Segment} (idle : c₀.phase = .idle)
    (ran : run Car.step c₀ bs = some c) (packets : ∀ ind, .dataInd ind ∉ bs) :
    Unsteered c₀ bs c := by
  refine run_induct (P := fun bs c => (∀ ind, .dataInd ind ∉ bs) → Unsteered c₀ bs c) ?_ ?_ ran
    packets
  · exact fun _ => ⟨rfl, fun _ => ⟨idle, rfl⟩, nofun⟩
  · intro bs c s c' before stepped packets
    refine (before fun ind mem => packets ind (List.mem_append_left _ mem)).step stepped ?_
    rintro ind rfl
    exact packets ind (by simp)

/-- A driven forward operator delivers a positive power, and the other way round. -/
theorem Delivers.driven_forward_iff {p : ℚ} {operators : Opr → Channel} (h : Delivers p operators) :
    (operators .a).Driven ↔ 0 < p := by
  constructor
  · intro driven
    by_contra nonpos
    exact h.not_driven_forward (not_lt.mp nonpos) driven
  · intro positive
    have power := h.forward
    rw [max_eq_left positive.le, Channel.power] at power
    split at power
    · exact ⟨‹_›, power ▸ positive⟩
    · exact absurd power positive.ne

/-- After the last packet a motor that drives forward goes on, whatever becomes of
the connection, until the ECU brakes: exactly until a read that enters state 2. -/
theorem drives_on_iff (as bs : List FirmwareAction) (f f' : Firmware) (t : Timer)
    (reached : run Firmware.step Firmware.init as = some f) (idle : f.esp.brake = [])
    (driven : (f.esp.outputs.mcpwm t .a).Driven) (ran : run Firmware.step f bs = some f')
    (packets : ∀ ind, .spp (.dataIndEvt ind) ∉ bs) :
    (f'.esp.outputs.mcpwm t .a).Driven ↔
      (receiveFrom f.esp.reader (readsOf (segmentsOf bs))).2 = false := by
  obtain ⟨c, -, commanded⟩ := commanded_init.run (run_segmentsOf reached)
  obtain ⟨c', ranCar, commanded'⟩ := commanded.run (run_segmentsOf ran)
  have waiting : c.phase = .idle := Phase.idle_of_left (commanded.brake.symm.trans idle)
  have unsteered := unsteered_of_run waiting ranCar fun ind mem => by
    obtain ⟨a, here, isSegment⟩ := List.mem_filterMap.mp mem
    rw [FirmwareAction.segment?_dataInd isSegment] at here
    exact packets ind here
  have power := (commanded.motors t).driven_forward_iff.mp driven
  rw [(commanded'.motors t).driven_forward_iff, commanded.reader]
  cases brakes : (receiveFrom c.reader (readsOf (segmentsOf bs))).2 with
  | false =>
      rw [(unsteered.before brakes).2]
      exact iff_of_true power rfl
  | true =>
      refine iff_of_false ?_ nofun
      rw [unsteered.after brakes t]
      split <;> norm_num

/-- Full speed ahead, and the connection is lost while the ECU warns. -/
theorem drives_on_iff_lost :
    let as := [.spp .srvOpenEvt, .spp (.dataIndEvt (DataInd.ofBytes [48, 50, 48, 48, 51, 48, 48]))]
    let bs := [.spp .closeEvt, .read [49], .read [48]]
    ∃ f f', run Firmware.step Firmware.init as = some f ∧ run Firmware.step f bs = some f' ∧
      f'.blinkGpio = false ∧ ∀ t, (f'.esp.outputs.mcpwm t .a).Driven := by
  intro as bs
  have packets : ∀ ind, .spp (.dataIndEvt ind) ∉ bs := by
    intro ind mem
    simp [bs] at mem
  refine ⟨_, _, rfl, rfl, rfl, fun t => ?_⟩
  exact (drives_on_iff as bs _ _ t rfl rfl (by cases t <;> decide +kernel) rfl packets).mpr
    (by decide)

end Adas.Esp
