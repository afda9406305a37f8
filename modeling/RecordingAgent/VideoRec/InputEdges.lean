import RecordingAgent.Foundation.Changes
import RecordingAgent.VideoRec.DelayedActions

/-!
# Edges of the discrete inputs

A poll hands over the inputs whose bits differ between the reading and the saved one, and all of them
while the saved register still holds the marker of an unread one. The saved register changes only
when a reading is processed, so what is handed over for an input are the changes of its bit over
the processed readings, however long the processing was suspended between two of them.
-/

namespace RecordingAgent.VideoRec

open Foundation

/-- The inputs that are handed over in these calls, with their values. -/
def reports (calls : List Call) : List (ℕ × ℕ) :=
  calls.filterMap fun
    | .checkDigitalEvents event value => some (event, value)
    | _ => none

/-- The values which an input is handed over with. -/
def reportedValues (event : ℕ) (calls : List Call) : List ℕ :=
  (reports calls).filterMap fun r => if r.1 = event then some r.2 else none

/-- The value of the input with this index in a reading. -/
def inputValue (index : ℕ) (reading : BitVec 8) : ℕ := (reading.getLsbD index).toNat

@[simp] theorem reports_append (calls more : List Call) : reports (calls ++ more) = reports calls ++ reports more :=
  List.filterMap_append

@[simp] theorem reportedValues_append (event : ℕ) (calls more : List Call) :
    reportedValues event (calls ++ more) = reportedValues event calls ++ reportedValues event more := by
  simp [reportedValues]

theorem inputValue_inj {index : ℕ} {u v : BitVec 8} :
    inputValue index u = inputValue index v ↔ u.getLsbD index = v.getLsbD index := by
  unfold inputValue
  cases u.getLsbD index <;> cases v.getLsbD index <;> decide

/-- The three inputs of a register hold its masked value, which is not the marker of an unread one. -/
theorem masked_ne_uninitialized (regData : BitVec 8) :
    regData &&& EventControl.discreteInputRegMask ≠ EventControl.uninitializedDiscretes := by
  intro h
  have hbit := congrArg (BitVec.getLsbD · 5) h
  simp [EventControl.discreteInputRegMask, EventControl.uninitializedDiscretes] at hbit

namespace EventControl

variable {config : Configuration} {s s' : EventControl} {calls : List Call}

/-- The reading a poll processes: a known one, unless the power is going down or the digital configuration
has not been sent. -/
def processedReading (config : Configuration) (s : EventControl) (p : Poll) : Option (BitVec 8) :=
  if (s.powerChecked p).powerGoingDown = false ∧ p.isDigitalConfigSent ∧ p.regData ≠ config.dinRegDataUnknown then
    some (p.regData &&& discreteInputRegMask)
  else none

/-- The reading a call of the event control processes. -/
def inputReading (config : Configuration) (s : EventControl) : Input → Option (BitVec 8)
  | .poll p => processedReading config s p
  | .expiry _ => none

/-- The readings a run processes. -/
def processedReadings (config : Configuration) : EventControl → List Input → List (BitVec 8)
  | _, [] => []
  | s, input :: inputs =>
      (inputReading config s input).toList ++
        match s.step config input with
        | some (s', _) => processedReadings config s' inputs
        | none => []

/-- Both registers stay. -/
def SameRegisters (s s' : EventControl) : Prop :=
  s'.discreteFpgaReg = s.discreteFpgaReg ∧ s'.prevDiscreteFpgaReg = s.prevDiscreteFpgaReg

theorem SameRegisters.trans {s'' : EventControl} (hfirst : SameRegisters s s') (hrest : SameRegisters s' s'') :
    SameRegisters s s'' :=
  ⟨hrest.1.trans hfirst.1, hrest.2.trans hfirst.2⟩

/-- An action hands over no input and leaves the registers. -/
theorem performDiscreteInputAction_registers {cam : Option ℕ} {ptr : Option EventInputPtr} {index : ℕ}
    (hdone : s.performDiscreteInputAction config cam ptr index = some (s', calls)) :
    SameRegisters s s' ∧ reports calls = [] := by
  unfold performDiscreteInputAction at hdone
  simp only [Option.bind_eq_bind, Option.pure_def, Option.bind_eq_some_iff] at hdone
  obtain ⟨eventInput, -, hdone⟩ := hdone
  split at hdone
  all_goals first
    | obtain ⟨cam, -, hdone⟩ := Option.bind_eq_some_iff.mp hdone
      obtain ⟨rfl, rfl⟩ := Prod.mk.inj (Option.some.inj hdone)
      exact ⟨⟨rfl, rfl⟩, rfl⟩
    | obtain ⟨rfl, rfl⟩ := Prod.mk.inj (Option.some.inj hdone)
      exact ⟨⟨rfl, rfl⟩, rfl⟩

/-- A camera's turn hands over no input and leaves the registers. -/
theorem processCamera_registers {event value c : ℕ} (hdone : processCamera config event value s c = some (s', calls)) :
    SameRegisters s s' ∧ reports calls = [] := by
  unfold processCamera at hdone
  split at hdone
  · obtain ⟨rfl, rfl⟩ := Prod.mk.inj (Option.some.inj hdone)
    exact ⟨⟨rfl, rfl⟩, rfl⟩
  · dsimp only at hdone
    split at hdone
    · obtain ⟨rfl, rfl⟩ := Prod.mk.inj (Option.some.inj hdone)
      refine ⟨?_, rfl⟩
      split <;> exact ⟨rfl, rfl⟩
    · obtain ⟨hsame, hnone⟩ := performDiscreteInputAction_registers hdone
      refine ⟨SameRegisters.trans ?_ hsame, hnone⟩
      split <;> exact ⟨rfl, rfl⟩

/-- An input's turn hands over this input with its value and leaves the registers. -/
theorem processEvent_registers {event : ℕ} (hdone : processEvent config s event = some (s', calls)) :
    SameRegisters s s' ∧ reports calls = [(event, s.triggerValue event)] := by
  unfold processEvent at hdone
  obtain ⟨⟨s₁, turns⟩, hloop, heq⟩ := Option.map_eq_some_iff.mp hdone
  obtain ⟨rfl, rfl⟩ := Prod.mk.inj heq
  have hturns : SameRegisters s s₁ ∧ reports ([] ++ turns) = [] :=
    loggedRun_invariant (I := fun s₁ log => SameRegisters s s₁ ∧ reports log = [])
      (fun s₁ log c s₂ more hinv hturn => ⟨hinv.1.trans (processCamera_registers hturn).1, by
        rw [reports_append, hinv.2, (processCamera_registers hturn).2]
        rfl⟩) ⟨⟨rfl, rfl⟩, rfl⟩ hloop
  have hreport : reports (config.checkDigitalEvents event (s.triggerValue event)) =
      [(event, s.triggerValue event)] := by
    unfold Configuration.checkDigitalEvents
    split
    · split <;> rfl
    · rfl
  refine ⟨hturns.1, ?_⟩
  rw [reports_append, hreport]
  exact congrArg (_ :: ·) hturns.2

/-- The value of an input depends on the register alone. -/
theorem triggerValue_congr (hsame : SameRegisters s s') (event : ℕ) : s'.triggerValue event = s.triggerValue event := by
  unfold triggerValue
  rw [hsame.1]

/-- Processing inputs hands them over in order with their values, and leaves the registers. -/
theorem processDiscreteInputData_registers {events : List ℕ}
    (hdone : processDiscreteInputData config s events = some (s', calls)) :
    SameRegisters s s' ∧ reports calls = events.map fun event => (event, s.triggerValue event) := by
  induction events generalizing s calls with
  | nil =>
    obtain ⟨rfl, rfl⟩ := Prod.mk.inj (Option.some.inj hdone)
    exact ⟨⟨rfl, rfl⟩, rfl⟩
  | cons event events ih =>
    obtain ⟨s₁, first, rest, hfirst, hrest, rfl⟩ := loggedRun_cons_inv hdone
    obtain ⟨hsame, hreport⟩ := processEvent_registers hfirst
    obtain ⟨hsame', hreports⟩ := ih hrest
    refine ⟨hsame.trans hsame', ?_⟩
    rw [reports_append, hreport, hreports, List.map_cons, List.singleton_append]
    simp only [triggerValue_congr hsame]

/-- The inputs a processed reading is compared to: all of them the first time. -/
def changedBits (prev reading : BitVec 8) : BitVec 8 :=
  if prev = uninitializedDiscretes then 7 else reading ^^^ prev

/-- The inputs of these bits with their values in a reading. -/
def valuedEvents (temp reading : BitVec 8) : List (ℕ × ℕ) :=
  (newEvents temp).map fun event => (event, inputValue (event - 1) reading)

/-- The value an input is handed over with is its bit of the register. -/
theorem triggerValue_newEvents (s : EventControl) {temp : BitVec 8} {event : ℕ} (hevent : event ∈ newEvents temp) :
    s.triggerValue event = inputValue (event - 1) s.discreteFpgaReg := by
  obtain ⟨index, hindex, rfl⟩ := List.mem_map.mp hevent
  have hlt := List.mem_range.mp (List.mem_filter.mp hindex).1
  obtain rfl | rfl | rfl : index = 0 ∨ index = 1 ∨ index = 2 := by omega
  all_goals rfl

/-- A reading is saved, and the inputs whose bits have changed are handed over with their values. -/
theorem processReading_reports {reading : BitVec 8} (hknown : reading ≠ uninitializedDiscretes)
    (hdone : s.processReading config reading = some (s', calls)) :
    s'.prevDiscreteFpgaReg = reading ∧
      reports calls = valuedEvents (changedBits s.prevDiscreteFpgaReg reading) reading := by
  unfold processReading at hdone
  dsimp only at hdone
  split at hdone
  · obtain ⟨hsame, hreports⟩ := processDiscreteInputData_registers hdone
    refine ⟨hsame.2, hreports.trans (List.map_congr_left fun event hevent => ?_)⟩
    rw [triggerValue_newEvents _ hevent]
  · rename_i hnot
    obtain ⟨rfl, rfl⟩ := Prod.mk.inj (Option.some.inj hdone)
    have hsame : s.prevDiscreteFpgaReg = reading ∧ s.prevDiscreteFpgaReg ≠ uninitializedDiscretes := by tauto
    refine ⟨hsame.1, ?_⟩
    rw [changedBits, if_neg hsame.2, ← hsame.1, BitVec.xor_self]
    rfl

/-- A poll hands over the changed inputs of the reading it processes and saves it; otherwise it hands over
nothing and keeps the saved one. -/
theorem checkForEvent_reports {p : Poll} (hdone : s.checkForEvent config p = some (s', calls)) :
    match processedReading config s p with
    | none => s'.prevDiscreteFpgaReg = s.prevDiscreteFpgaReg ∧ reports calls = []
    | some reading => s'.prevDiscreteFpgaReg = reading ∧ reading ≠ uninitializedDiscretes ∧
        reports calls = valuedEvents (changedBits s.prevDiscreteFpgaReg reading) reading := by
  have hsaved : (s.powerChecked p).prevDiscreteFpgaReg = s.prevDiscreteFpgaReg := by
    unfold powerChecked checkPowerDown
    dsimp only
    split
    · split <;> rfl
    · rfl
  have hready : ∀ asked : Bool, reports (if asked = true then [Call.readyStatus true] else []) = [] := by
    intro asked
    cases asked <;> rfl
  unfold checkForEvent at hdone
  dsimp only [setDriveStatusRequested] at hdone
  unfold processedReading
  split at hdone
  · rename_i hdown
    obtain ⟨rfl, rfl⟩ := Prod.mk.inj (Option.some.inj hdone)
    rw [if_neg (by simp [hdown.2])]
    exact ⟨hsaved, rfl⟩
  · split at hdone
    · obtain ⟨⟨s₁, handed⟩, hreading, heq⟩ := Option.map_eq_some_iff.mp hdone
      obtain ⟨rfl, rfl⟩ := Prod.mk.inj heq
      rw [if_pos ‹_›]
      obtain ⟨hprev, hreports⟩ := processReading_reports (masked_ne_uninitialized _) hreading
      refine ⟨hprev, masked_ne_uninitialized _, ?_⟩
      rw [reports_append, hready, List.nil_append, hreports, hsaved]
    · obtain ⟨rfl, rfl⟩ := Prod.mk.inj (Option.some.inj hdone)
      rw [if_neg ‹_›]
      exact ⟨hsaved, hready _⟩

/-- What the changed bits come to for one input. -/
theorem reportedValues_valuedEvents {index : ℕ} (hindex : index < 3) {temp reading : BitVec 8}
    (hreports : reports calls = valuedEvents temp reading) :
    reportedValues (index + 1) calls = if temp.getLsbD index then [inputValue index reading] else [] := by
  rw [reportedValues, hreports, valuedEvents, newEvents]
  generalize temp.getLsbD = bits
  obtain rfl | rfl | rfl : index = 0 ∨ index = 1 ∨ index = 2 := by omega
  all_goals
    cases h0 : bits 0 <;> cases h1 : bits 1 <;> cases h2 : bits 2 <;>
      simp [List.range_succ, h0, h1, h2]

/-- The inputs that have been handed over are the changes of the readings processed so far, the last of
which is saved. -/
structure Reported (s : EventControl) (log : List Call) (readings : List (BitVec 8)) : Prop where
  known : ∀ reading ∈ readings, reading ≠ uninitializedDiscretes
  saved : s.prevDiscreteFpgaReg = readings.getLast?.getD uninitializedDiscretes
  values : ∀ index < 3, reportedValues (index + 1) log = changes (readings.map (inputValue index))

/-- What is handed over for one more reading. -/
theorem Reported.values_concat {log : List Call} {readings : List (BitVec 8)} (hinv : Reported s log readings)
    {reading : BitVec 8}
    (hreports : reports calls = valuedEvents (changedBits s.prevDiscreteFpgaReg reading) reading) {index : ℕ}
    (hindex : index < 3) :
    reportedValues (index + 1) (log ++ calls) = changes ((readings ++ [reading]).map (inputValue index)) := by
  rw [reportedValues_append, hinv.values index hindex, reportedValues_valuedEvents hindex hreports, List.map_append,
    List.map_singleton, hinv.saved]
  cases hlast : readings.getLast? with
  | none =>
    have hall : (changedBits uninitializedDiscretes reading).getLsbD index = true := by
      rw [changedBits, if_pos rfl]
      obtain rfl | rfl | rfl : index = 0 ∨ index = 1 ∨ index = 2 := by omega
      all_goals decide
    rw [List.getLast?_eq_none_iff.mp hlast, Option.getD_none, hall]
    rfl
  | some prev =>
    have hprev := hinv.known prev (List.mem_of_getLast? hlast)
    have hlast' : (readings.map (inputValue index)).getLast? = some (inputValue index prev) := by
      rw [List.getLast?_map, hlast, Option.map_some]
    rw [changes_concat hlast', Option.getD_some, changedBits, if_neg hprev, BitVec.getLsbD_xor]
    simp only [inputValue_inj]
    cases prev.getLsbD index <;> cases reading.getLsbD index <;> rfl

/-- One call of the event control keeps the account of what has been handed over. -/
theorem Reported.step {log : List Call} {readings : List (BitVec 8)} (hinv : Reported s log readings) {input : Input}
    (hstep : s.step config input = some (s', calls)) :
    Reported s' (log ++ calls) (readings ++ (inputReading config s input).toList) := by
  have hkeep : s'.prevDiscreteFpgaReg = s.prevDiscreteFpgaReg → reports calls = [] →
      Reported s' (log ++ calls) (readings ++ []) := by
    intro hprev hnone
    rw [List.append_nil]
    refine ⟨hinv.known, hprev.trans hinv.saved, fun index hindex => ?_⟩
    rw [reportedValues_append, hinv.values index hindex, reportedValues, hnone, List.filterMap_nil, List.append_nil]
  cases input with
  | expiry tid =>
    unfold EventControl.step at hstep
    dsimp only at hstep
    split at hstep
    · unfold discreteInputTimerEventHandler at hstep
      split at hstep
      · obtain ⟨hsame, hnone⟩ := performDiscreteInputAction_registers hstep
        exact hkeep hsame.2 hnone
      · obtain ⟨rfl, rfl⟩ := Prod.mk.inj (Option.some.inj hstep)
        exact hkeep rfl rfl
    · obtain ⟨rfl, rfl⟩ := Prod.mk.inj (Option.some.inj hstep)
      exact hkeep rfl rfl
  | poll p =>
    have hpoll := checkForEvent_reports hstep
    rw [inputReading]
    cases hreading : processedReading config s p with
    | none =>
      rw [hreading] at hpoll
      exact hkeep hpoll.1 hpoll.2
    | some reading =>
      rw [hreading] at hpoll
      obtain ⟨hprev, hknown, hreports⟩ := hpoll
      refine ⟨fun r hr => ?_, ?_, fun index hindex => hinv.values_concat hreports hindex⟩
      · rcases List.mem_append.mp hr with hr | hr
        · exact hinv.known r hr
        · rw [List.mem_singleton.mp hr]
          exact hknown
      · rw [Option.toList_some, List.getLast?_concat, Option.getD_some, hprev]

/-- A run keeps the account of what has been handed over. -/
theorem Reported.run {log : List Call} {readings : List (BitVec 8)} (hinv : Reported s log readings)
    {inputs : List Input} (hrun : loggedRun (EventControl.step config) s inputs = some (s', calls)) :
    Reported s' (log ++ calls) (readings ++ processedReadings config s inputs) := by
  induction inputs generalizing s log readings calls with
  | nil =>
    obtain ⟨rfl, rfl⟩ := Prod.mk.inj (Option.some.inj hrun)
    simpa [processedReadings] using hinv
  | cons input inputs ih =>
    obtain ⟨s₁, first, rest, hfirst, hrest, rfl⟩ := loggedRun_cons_inv hrun
    rw [processedReadings, hfirst, ← List.append_assoc, ← List.append_assoc]
    exact ih (hinv.step hfirst) hrest

variable (config) in
/-- A camera's turn succeeds: the pointers it follows are those it has just stored. -/
theorem processCamera_succeeds (event value : ℕ) (s : EventControl) (c : ℕ) :
    ∃ s' calls, processCamera config event value s c = some (s', calls) := by
  unfold processCamera
  cases hmatch : config.matchingInput c event value with
  | none => exact ⟨s, [], rfl⟩
  | some found =>
    obtain ⟨e, i⟩ := found
    obtain ⟨hentry, hc⟩ := eventInput_of_matchingInput hmatch
    dsimp only
    split
    · exact ⟨_, [], rfl⟩
    · rw [stop_if_active]
      have hread : ∀ tid, (((s.setPointers c (c, i)).ptcTimerStop tid).discreteInputTimerArr c).eventInputPtr =
          some (c, i) := fun tid => by simp [ptcTimerStop, EventControl.setPointers]
      rw [hread]
      obtain ⟨s', sent, hdone, -⟩ := performDiscreteInputAction_spec (_ : EventControl) hc hentry
      exact ⟨s', _, hdone⟩

/-- A poll succeeds in every state. -/
theorem checkForEvent_succeeds (config : Configuration) (s : EventControl) (p : Poll) :
    ∃ s' calls, s.checkForEvent config p = some (s', calls) := by
  have hevent : ∀ s event, ∃ s' calls, processEvent config s event = some (s', calls) := by
    intro s event
    obtain ⟨s', calls, hloop⟩ := loggedRun_succeeds (processCamera_succeeds config event
      (s.triggerValue event)) s (List.range config.cameraConfiguration.length)
    exact ⟨s', _, by rw [processEvent, hloop, Option.map_some]⟩
  have hreading : ∀ (s : EventControl) reading, ∃ s' calls, s.processReading config reading = some (s', calls) := by
    intro s reading
    unfold processReading
    dsimp only
    split
    · exact loggedRun_succeeds hevent _ _
    · exact ⟨_, [], rfl⟩
  unfold checkForEvent
  dsimp only
  split
  · exact ⟨_, _, rfl⟩
  · split
    · obtain ⟨s', calls, hdone⟩ := hreading ((s.powerChecked p).setDriveStatusRequested false)
        (p.regData &&& discreteInputRegMask)
      exact ⟨s', _, by rw [hdone, Option.map_some]⟩
    · exact ⟨_, _, rfl⟩

/-- After every run, the values each input has been handed over with are the changes of its bit over the
readings processed so far, so they alternate. The poll that processes the first reading hands over all
three inputs with their values, a poll that processes none hands over nothing, and after a poll that
processes a reading the last value handed over for each input is the one in the reading. -/
theorem edges_reported_once (config : Configuration) (timerIds : ℕ → TimerId) (videoRecInfo : VideoRecInfo)
    (inputs : List Input) {s : EventControl} {log : List Call}
    (hrun : runFromInit config timerIds videoRecInfo inputs = some (s, log)) :
    (∀ index < 3,
      reportedValues (index + 1) log =
        changes ((processedReadings config (initEventControl config timerIds videoRecInfo) inputs).map
          (inputValue index)) ∧
      (reportedValues (index + 1) log).IsChain (· ≠ ·)) ∧
    ∀ p, ∃ s' calls, s.checkForEvent config p = some (s', calls) ∧
      match processedReading config s p with
      | none => reports calls = []
      | some reading =>
          (processedReadings config (initEventControl config timerIds videoRecInfo) inputs = [] →
            reports calls = [(1, inputValue 0 reading), (2, inputValue 1 reading), (3, inputValue 2 reading)]) ∧
          ∀ index < 3, (reportedValues (index + 1) (log ++ calls)).getLast? = some (inputValue index reading) := by
  have hstart : Reported (initEventControl config timerIds videoRecInfo) [] [] :=
    ⟨by simp, rfl, fun index _ => rfl⟩
  have hinv := hstart.run hrun
  rw [List.nil_append, List.nil_append] at hinv
  refine ⟨fun index hindex => ⟨hinv.values index hindex, ?_⟩, fun p => ?_⟩
  · rw [hinv.values index hindex]
    exact isChain_changes _
  · obtain ⟨s', calls, hdone⟩ := checkForEvent_succeeds config s p
    have hpoll := checkForEvent_reports hdone
    refine ⟨s', calls, hdone, ?_⟩
    cases hreading : processedReading config s p with
    | none =>
      rw [hreading] at hpoll
      exact hpoll.2
    | some reading =>
      rw [hreading] at hpoll
      obtain ⟨hprev, hknown, hreports⟩ := hpoll
      refine ⟨fun hnone => ?_, fun index hindex => ?_⟩
      · have hall : newEvents (changedBits uninitializedDiscretes reading) = [1, 2, 3] := by
          rw [changedBits, if_pos rfl]
          decide
        rw [hreports, hinv.saved, hnone, List.getLast?_nil, Option.getD_none, valuedEvents, hall]
        rfl
      · rw [hinv.values_concat hreports hindex, getLast?_changes, List.getLast?_map, List.getLast?_concat,
          Option.map_some]

theorem edges_reported_once_pausing :
    ∃ s log, runFromInit pausingConfig (fun c => c) ⟨false, fun _ => false, fun _ => 30⟩
        [.poll ⟨some false, false, false, 6⟩, .poll ⟨some false, false, true, 255⟩,
          .poll ⟨some false, false, true, 5⟩, .poll ⟨some false, false, true, 4⟩] = some (s, log) ∧
      reports log = [(1, 1), (2, 0), (3, 1), (1, 0)] ∧ (reportedValues 1 log).IsChain (· ≠ ·) := by
  refine ⟨_, _, rfl, by decide, ?_⟩
  exact ((edges_reported_once pausingConfig (fun c => c) ⟨false, fun _ => false, fun _ => 30⟩
    [.poll ⟨some false, false, false, 6⟩, .poll ⟨some false, false, true, 255⟩,
      .poll ⟨some false, false, true, 5⟩, .poll ⟨some false, false, true, 4⟩] rfl).1 0 (by decide)).2

end EventControl

end RecordingAgent.VideoRec
