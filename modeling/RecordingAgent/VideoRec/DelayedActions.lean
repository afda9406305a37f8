import RecordingAgent.Foundation.FirstMatch
import RecordingAgent.Foundation.LatestTrigger
import RecordingAgent.VideoRec.EventControl

/-!
# Delayed actions of cameras

A camera has one timer and one slot for the entry its timer stands for. Each is changed on three
branches and read when the timer expires. Between two calls of the event control the timer is
active exactly when the camera's last trigger is still to be acted on, and the slot then holds that
trigger's entry. The timers which are created are taken to be different ones.
-/

namespace RecordingAgent.VideoRec

open Foundation

/-- The entry an input triggers for a camera, if a call hands over an input. -/
def triggerOf (config : Configuration) (c : ℕ) : Call → Option EventInputPtr
  | .checkDigitalEvents event value => (config.matchingInput c event value).map fun e => (c, e.2)
  | _ => none

/-- The entry acted on, if a call performs an action on a camera. -/
def actionOf (c : ℕ) : Call → Option EventInputPtr
  | .performDiscreteInputAction cam ptr index => if cam = some c ∨ index = c then ptr else none
  | _ => none

/-- The camera's most recent trigger is of this entry, and has not been acted on since. -/
def OpenTrigger (config : Configuration) (c : ℕ) (log : List Call) (ptr : EventInputPtr) : Prop :=
  ∃ early trigger since, log = early ++ trigger :: since ∧ triggerOf config c trigger = some ptr ∧
    ∀ x ∈ since, triggerOf config c x = none ∧ actionOf c x = none

/-- What is still to be done for a camera after a log. -/
def pendingTrigger (config : Configuration) (c : ℕ) (log : List Call) : Option EventInputPtr :=
  pendingAfter (triggerOf config c) (actionOf c) none log

/-- Neither an input is handed over in these calls nor an action performed on the camera. -/
def Idle (c : ℕ) (calls : List Call) : Prop :=
  ∀ x ∈ calls, actionOf c x = none ∧ ∀ event value, x ≠ .checkDigitalEvents event value

/-- The action of an entry without a delay comes before any other input is handed over. -/
def ActedAtOnce (config : Configuration) (c : ℕ) (log : List Call) : Prop :=
  ∀ before event value after e i, log = before ++ .checkDigitalEvents event value :: after →
    config.matchingInput c event value = some (e, i) → e.actionDelayAfterEventTrigger ≤ 0 →
    ∃ between rest, after = between ++ .performDiscreteInputAction (some c) (some (c, i)) c :: rest ∧ Idle c between

section Logs

variable {config : Configuration} {c : ℕ} {log more calls : List Call} {ptr : EventInputPtr}

theorem pendingTrigger_eq_some : pendingTrigger config c log = some ptr ↔ OpenTrigger config c log ptr :=
  pendingAfter_eq_some

theorem idle_append : Idle c (log ++ more) ↔ Idle c log ∧ Idle c more := by
  simp only [Idle, List.forall_mem_append]

theorem idle_nil : Idle c [] := by simp [Idle]

theorem Idle.quiet (hidle : Idle c calls) : ∀ x ∈ calls, triggerOf config c x = none ∧ actionOf c x = none := by
  intro x hx
  refine ⟨?_, (hidle x hx).1⟩
  cases x with
  | checkDigitalEvents event value => exact absurd rfl ((hidle _ hx).2 event value)
  | _ => rfl

theorem Idle.pendingTrigger (hidle : Idle c calls) :
    pendingTrigger config c (log ++ calls) = pendingTrigger config c log := by
  rw [VideoRec.pendingTrigger, pendingAfter_append, pendingAfter_idle hidle.quiet]
  rfl

theorem Idle.actsOnPending (hidle : Idle c calls) (pending : Option EventInputPtr) :
    ActsOnPending (triggerOf config c) (actionOf c) pending calls :=
  actsOnPending_idle (fun x hx => (hidle x hx).1) pending

theorem Idle.actedAtOnce (hidle : Idle c calls) : ActedAtOnce config c calls := by
  rintro before event value after e i rfl
  exact absurd rfl ((hidle (.checkDigitalEvents event value) (by simp)).2 event value)

/-- Logs in which immediate actions are performed at once can be put together. -/
theorem ActedAtOnce.append (hlog : ActedAtOnce config c log) (hmore : ActedAtOnce config c more) :
    ActedAtOnce config c (log ++ more) := by
  intro before event value after e i hsplit hmatch hdelay
  rcases List.append_eq_append_iff.mp hsplit with ⟨pre, rfl, rfl⟩ | ⟨post, rfl, hpost⟩
  · exact hmore pre event value after e i rfl hmatch hdelay
  · cases post with
    | nil => exact hmore [] event value after e i hpost.symm hmatch hdelay
    | cons x post =>
      obtain ⟨rfl, rfl⟩ := List.cons.inj hpost
      obtain ⟨between, rest, rfl, hidle⟩ := hlog before event value post e i rfl hmatch hdelay
      exact ⟨between, rest ++ more, by simp, hidle⟩

/-- An input that is handed over is acted on at once if its action is found behind it. -/
theorem actedAtOnce_report {event value : ℕ} (hlast : ∀ x ∈ calls, ∀ event value, x ≠ .checkDigitalEvents event value)
    (hfound : ∀ e i, config.matchingInput c event value = some (e, i) → e.actionDelayAfterEventTrigger ≤ 0 →
      ∃ between rest, calls = between ++ .performDiscreteInputAction (some c) (some (c, i)) c :: rest ∧
        Idle c between) :
    ActedAtOnce config c (.checkDigitalEvents event value :: calls) := by
  intro before event' value' after e i hsplit hmatch hdelay
  cases before with
  | nil =>
    obtain ⟨hhead, rfl⟩ := List.cons.inj hsplit
    obtain ⟨rfl, rfl⟩ := Call.checkDigitalEvents.inj hhead
    exact hfound e i hmatch hdelay
  | cons x before =>
    obtain ⟨-, rfl⟩ := List.cons.inj hsplit
    exact absurd rfl (hlast (.checkDigitalEvents event' value') (by simp) event' value')

variable (config) in
/-- The message about an input to be recorded is idle. -/
theorem checkDigitalEvents_eq (event value : ℕ) :
    ∃ sent, config.checkDigitalEvents event value = .checkDigitalEvents event value :: sent ∧ ∀ c, Idle c sent := by
  unfold Configuration.checkDigitalEvents
  refine ⟨_, rfl, fun c => ?_⟩
  split
  · split
    · intro x hx
      rw [List.mem_singleton.mp hx]
      exact ⟨rfl, fun _ _ h => by cases h⟩
    · exact idle_nil
  · exact idle_nil

/-- The entry that matches is the one its pointer leads to, and its camera is configured. -/
theorem eventInput_of_matchingInput {event value : ℕ} {e : InputForEventControlledCamera} {i : ℕ}
    (hmatch : config.matchingInput c event value = some (e, i)) :
    config.eventInput (c, i) = some e ∧ c < config.cameraConfiguration.length := by
  unfold Configuration.matchingInput at hmatch
  obtain ⟨cam, hcam, hfound⟩ := Option.bind_eq_some_iff.mp hmatch
  refine ⟨?_, (List.getElem?_eq_some_iff.mp hcam).1⟩
  split at hfound
  · have hmem := List.mem_of_find?_eq_some hfound
    rw [Configuration.eventInput, hcam, Option.bind_some]
    exact List.mk_mem_zipIdx_iff_getElem?.mp hmem
  · cases hfound

end Logs

namespace EventControl

variable {config : Configuration} {timerIds : ℕ → TimerId} {c d : ℕ} {s s' s'' : EventControl} {event value : ℕ}

/-- The calls and the timer and slot a camera's action leaves alone. -/
theorem performDiscreteInputAction_spec (s : EventControl) (hc : c < config.cameraConfiguration.length) {i : ℕ}
    {e : InputForEventControlledCamera} (hentry : config.eventInput (c, i) = some e) :
    ∃ s' sent, s.performDiscreteInputAction config (some c) (some (c, i)) c =
        some (s', .performDiscreteInputAction (some c) (some (c, i)) c :: sent) ∧
      s'.timers = s.timers ∧ s'.discreteInputTimerArr = s.discreteInputTimerArr ∧ ∀ d, Idle d sent := by
  have hcam : (some c).bind (config.cameraConfiguration[·]?) = some config.cameraConfiguration[c] :=
    List.getElem?_eq_getElem hc
  have hmessage : ∀ d, ∀ x : Call, (∃ camera record, x = .cameraRecordPause camera record) ∨
      (∃ camera rate, x = .cameraFrameRate camera rate) → Idle d [x] := by
    intro d x hx y hy
    rw [List.mem_singleton.mp hy]
    rcases hx with ⟨_, _, rfl⟩ | ⟨_, _, rfl⟩ <;> exact ⟨rfl, fun _ _ h => by cases h⟩
  unfold performDiscreteInputAction
  simp only [Option.bind_some, hentry, hcam, Option.bind_eq_bind, Option.pure_def]
  cases e.cameraFunctionForEvent with
  | record => exact ⟨_, _, rfl, rfl, rfl, fun d => hmessage d _ (.inl ⟨_, _, rfl⟩)⟩
  | pause => exact ⟨_, _, rfl, rfl, rfl, fun d => hmessage d _ (.inl ⟨_, _, rfl⟩)⟩
  | setFrameRate => exact ⟨_, _, rfl, rfl, rfl, fun d => hmessage d _ (.inr ⟨_, _, rfl⟩)⟩
  | other => exact ⟨_, _, rfl, rfl, rfl, fun d => idle_nil⟩

/-- The pool as it was set up: the identifiers of its timers, and no timer active but those of cameras. -/
structure Pool (config : Configuration) (timerIds : ℕ → TimerId) (s : EventControl) : Prop where
  ids : ∀ i, (s.discreteInputTimerArr i).timerId = if i < config.cameraConfiguration.length then timerIds i else 0
  owned : ∀ tid, s.timers tid ≠ none → ∃ c < config.cameraConfiguration.length, timerIds c = tid

/-- The created timers are different ones. -/
def DistinctTimers (config : Configuration) (timerIds : ℕ → TimerId) : Prop :=
  ∀ i < config.cameraConfiguration.length, ∀ j < config.cameraConfiguration.length, timerIds i = timerIds j → i = j

/-- A camera's timer and slot stay, and the calls do not concern it. -/
def Untouched (timerIds : ℕ → TimerId) (c : ℕ) (s s' : EventControl) (calls : List Call) : Prop :=
  s'.timers (timerIds c) = s.timers (timerIds c) ∧ s'.discreteInputTimerArr c = s.discreteInputTimerArr c ∧
    Idle c calls

/-- What an input comes to for a camera: nothing without a match, and otherwise the entry's pointers in
the slot with either the timer running or the action performed and the timer stopped. -/
def Served (config : Configuration) (timerIds : ℕ → TimerId) (event value c : ℕ) (s s' : EventControl)
    (calls : List Call) : Prop :=
  match config.matchingInput c event value with
  | none => Untouched timerIds c s s' calls
  | some (e, i) =>
      s'.discreteInputTimerArr c = ⟨timerIds c, some (c, i), some c⟩ ∧
        if e.actionDelayAfterEventTrigger > 0 then
          s'.timers (timerIds c) = some (e.actionDelayAfterEventTrigger * 1000) ∧ Idle c calls
        else
          s'.timers (timerIds c) = none ∧ ∃ between rest,
            calls = between ++ .performDiscreteInputAction (some c) (some (c, i)) c :: rest ∧
              Idle c between ∧ Idle c rest

theorem Untouched.trans {calls more : List Call} (hfirst : Untouched timerIds c s s' calls)
    (hrest : Untouched timerIds c s' s'' more) : Untouched timerIds c s s'' (calls ++ more) :=
  ⟨hrest.1.trans hfirst.1, hrest.2.1.trans hfirst.2.1, idle_append.mpr ⟨hfirst.2.2, hrest.2.2⟩⟩

theorem Untouched.served {calls more : List Call} (hfirst : Untouched timerIds c s s' calls)
    (hrest : Served config timerIds event value c s' s'' more) :
    Served config timerIds event value c s s'' (calls ++ more) := by
  unfold Served at hrest ⊢
  split at hrest
  · exact hfirst.trans hrest
  · refine ⟨hrest.1, ?_⟩
    obtain ⟨-, hrest⟩ := hrest
    split at hrest
    · rw [if_pos ‹_›]
      exact ⟨hrest.1, idle_append.mpr ⟨hfirst.2.2, hrest.2⟩⟩
    · obtain ⟨htimer, between, rest, rfl, hbetween, hidle⟩ := hrest
      rw [if_neg ‹_›]
      exact ⟨htimer, calls ++ between, rest, by simp, idle_append.mpr ⟨hfirst.2.2, hbetween⟩, hidle⟩

theorem Served.untouched {calls more : List Call} (hfirst : Served config timerIds event value c s s' calls)
    (hrest : Untouched timerIds c s' s'' more) : Served config timerIds event value c s s'' (calls ++ more) := by
  obtain ⟨htimers, hslot, hmore⟩ := hrest
  unfold Served at hfirst ⊢
  split at hfirst
  · exact hfirst.trans ⟨htimers, hslot, hmore⟩
  · refine ⟨hslot.trans hfirst.1, ?_⟩
    obtain ⟨-, hfirst⟩ := hfirst
    rw [htimers]
    split at hfirst
    · rw [if_pos ‹_›]
      exact ⟨hfirst.1, idle_append.mpr ⟨hfirst.2, hmore⟩⟩
    · obtain ⟨htimer, between, rest, rfl, hbetween, hidle⟩ := hfirst
      rw [if_neg ‹_›]
      exact ⟨htimer, between, rest ++ more, by simp, hbetween, idle_append.mpr ⟨hidle, hmore⟩⟩

theorem Pool.congr (hpool : Pool config timerIds s) (htimers : s'.timers = s.timers)
    (hslots : s'.discreteInputTimerArr = s.discreteInputTimerArr) : Pool config timerIds s' :=
  ⟨fun i => by rw [hslots]; exact hpool.ids i, fun tid => by rw [htimers]; exact hpool.owned tid⟩

/-- Stopping a timer keeps the pool. -/
theorem Pool.stop (hpool : Pool config timerIds s) (tid : TimerId) : Pool config timerIds (s.ptcTimerStop tid) := by
  refine ⟨hpool.ids, fun other hother => ?_⟩
  by_cases htid : other = tid
  · simp [ptcTimerStop, htid] at hother
  · exact hpool.owned other (by simpa [ptcTimerStop, htid] using hother)

/-- Starting a camera's timer keeps the pool. -/
theorem Pool.start (hpool : Pool config timerIds s) (hc : c < config.cameraConfiguration.length) (period : ℤ) :
    Pool config timerIds (s.ptcTimerStart (timerIds c) period) := by
  refine ⟨hpool.ids, fun other hother => ?_⟩
  by_cases htid : other = timerIds c
  · exact ⟨c, hc, htid.symm⟩
  · exact hpool.owned other (by simpa [ptcTimerStart, htid] using hother)

/-- Storing pointers keeps the pool. -/
theorem Pool.setPointers (hpool : Pool config timerIds s) (ptr : EventInputPtr) :
    Pool config timerIds (s.setPointers c ptr) := by
  refine ⟨fun i => ?_, hpool.owned⟩
  by_cases hi : i = c
  · simpa [EventControl.setPointers, hi] using hpool.ids c
  · simpa [EventControl.setPointers, hi] using hpool.ids i

/-- A timer that is stopped if it is active is inactive afterwards. -/
theorem stop_if_active (s : EventControl) (tid : TimerId) :
    (if s.ptcTimerActive tid then s.ptcTimerStop tid else s) = s.ptcTimerStop tid := by
  split
  · rfl
  · have hnone : s.timers tid = none := by simpa [ptcTimerActive] using ‹¬ s.ptcTimerActive tid = true›
    unfold ptcTimerStop
    rw [← hnone, Function.update_eq_self]

/-- A camera's turn serves this camera and touches no other. -/
theorem processCamera_spec (hids : DistinctTimers config timerIds) (hpool : Pool config timerIds s)
    (hc : c < config.cameraConfiguration.length) (event value : ℕ) :
    ∃ s' calls, processCamera config event value s c = some (s', calls) ∧ Pool config timerIds s' ∧
      Served config timerIds event value c s s' calls ∧
      ∀ d < config.cameraConfiguration.length, d ≠ c → Untouched timerIds d s s' calls := by
  unfold processCamera Served
  cases hmatch : config.matchingInput c event value with
  | none =>
    exact ⟨s, [], rfl, hpool, ⟨rfl, rfl, idle_nil⟩, fun d _ _ => ⟨rfl, rfl, idle_nil⟩⟩
  | some found =>
    obtain ⟨e, i⟩ := found
    have hentry := (eventInput_of_matchingInput hmatch).1
    have hid : ((s.setPointers c (c, i)).discreteInputTimerArr c).timerId = timerIds c := by
      rw [(hpool.setPointers (c, i)).ids c, if_pos hc]
    have hslot : (s.setPointers c (c, i)).discreteInputTimerArr c = ⟨timerIds c, some (c, i), some c⟩ := by
      have := hpool.ids c
      rw [if_pos hc] at this
      simp [EventControl.setPointers, this]
    have hother : ∀ d ≠ c, (s.setPointers c (c, i)).discreteInputTimerArr d = s.discreteInputTimerArr d := by
      intro d hd
      simp [EventControl.setPointers, hd]
    have hstopped := (hpool.setPointers (c := c) (c, i)).stop (timerIds c)
    simp only [hid, stop_if_active]
    split
    · refine ⟨_, [], rfl, hstopped.start hc _, ⟨hslot, ?_, idle_nil⟩, fun d hd hne => ⟨?_, hother d hne, idle_nil⟩⟩
      · simp [ptcTimerStart]
      · have hne' : timerIds d ≠ timerIds c := fun h => hne (hids d hd c hc h)
        simp [ptcTimerStart, ptcTimerStop, EventControl.setPointers, hne']
    · have hread : (((s.setPointers c (c, i)).ptcTimerStop (timerIds c)).discreteInputTimerArr c).eventInputPtr =
          some (c, i) := congrArg DiscreteEventTimer.eventInputPtr hslot
      obtain ⟨s', sent, hdone, htimers, hslots, hsent⟩ :=
        performDiscreteInputAction_spec ((s.setPointers c (c, i)).ptcTimerStop (timerIds c)) hc hentry
      rw [hread]
      refine ⟨s', _, hdone, hstopped.congr htimers hslots, ⟨?_, ?_, [], sent, rfl, idle_nil, hsent c⟩,
        fun d hd hne => ⟨?_, ?_, ?_⟩⟩
      · rw [hslots]
        exact hslot
      · simp [htimers, ptcTimerStop]
      · have hne' : timerIds d ≠ timerIds c := fun h => hne (hids d hd c hc h)
        simp [htimers, ptcTimerStop, EventControl.setPointers, hne']
      · rw [hslots]
        exact hother d hne
      · intro x hx
        rcases List.mem_cons.mp hx with rfl | hx
        · exact ⟨by simp [actionOf, hne.symm], fun _ _ h => by cases h⟩
        · exact hsent d x hx

/-- The loop over cameras serves each camera it comes to and touches no other. -/
theorem loggedRun_processCamera (hids : DistinctTimers config timerIds) (hpool : Pool config timerIds s)
    {cs : List ℕ} (hnodup : cs.Nodup) (hcs : ∀ c ∈ cs, c < config.cameraConfiguration.length) (event value : ℕ) :
    ∃ s' calls, loggedRun (processCamera config event value) s cs = some (s', calls) ∧ Pool config timerIds s' ∧
      ∀ c < config.cameraConfiguration.length,
        (c ∈ cs → Served config timerIds event value c s s' calls) ∧
          (c ∉ cs → Untouched timerIds c s s' calls) := by
  induction cs generalizing s with
  | nil => exact ⟨s, [], rfl, hpool, fun c _ => ⟨by simp, fun _ => ⟨rfl, rfl, idle_nil⟩⟩⟩
  | cons a cs ih =>
    obtain ⟨s₁, first, hturn, hpool₁, hserved, huntouched⟩ :=
      processCamera_spec hids hpool (hcs a List.mem_cons_self) event value
    obtain ⟨s₂, rest, hloop, hpool₂, hrest⟩ :=
      ih hpool₁ (List.nodup_cons.mp hnodup).2 fun c hc => hcs c (List.mem_cons_of_mem _ hc)
    refine ⟨s₂, first ++ rest, loggedRun_cons hturn hloop, hpool₂, fun c hc => ⟨fun hmem => ?_, fun hnot => ?_⟩⟩
    · by_cases hca : c = a
      · subst hca
        exact hserved.untouched ((hrest c hc).2 (List.nodup_cons.mp hnodup).1)
      · exact (huntouched c hc hca).served ((hrest c hc).1 ((List.mem_cons.mp hmem).resolve_left hca))
    · obtain ⟨hca, hcs'⟩ := not_or.mp (mt List.mem_cons.mpr hnot)
      exact (huntouched c hc hca).trans ((hrest c hc).2 hcs')

/-- A camera's timer and slot stand for what its log leaves to be done, and the log's actions are those of
the latest triggers. -/
structure Tracked (config : Configuration) (timerIds : ℕ → TimerId) (c : ℕ) (s : EventControl)
    (log : List Call) : Prop where
  idle : pendingTrigger config c log = none → s.timers (timerIds c) = none
  armed : ∀ ptr, pendingTrigger config c log = some ptr →
    s.discreteInputTimerArr c = ⟨timerIds c, some ptr, some c⟩ ∧
      ∃ e i, ptr = (c, i) ∧ config.eventInput ptr = some e ∧ 0 < e.actionDelayAfterEventTrigger ∧
        s.timers (timerIds c) = some (e.actionDelayAfterEventTrigger * 1000)
  latest : ActsOnPending (triggerOf config c) (actionOf c) none log
  atOnce : ActedAtOnce config c log

/-- What holds between two calls of the event control. -/
structure Consistent (config : Configuration) (timerIds : ℕ → TimerId) (s : EventControl) (log : List Call) :
    Prop where
  pool : Pool config timerIds s
  tracked : ∀ c < config.cameraConfiguration.length, Tracked config timerIds c s log

/-- Calls which do not concern a camera keep it tracked. -/
theorem Tracked.untouched {log calls : List Call} (htracked : Tracked config timerIds c s log)
    (huntouched : Untouched timerIds c s s' calls) : Tracked config timerIds c s' (log ++ calls) := by
  obtain ⟨htimers, hslot, hidle⟩ := huntouched
  refine ⟨?_, ?_, actsOnPending_append.mpr ⟨htracked.latest, hidle.actsOnPending _⟩,
    htracked.atOnce.append hidle.actedAtOnce⟩
  · rw [hidle.pendingTrigger, htimers]
    exact htracked.idle
  · rw [hidle.pendingTrigger, htimers, hslot]
    exact htracked.armed

/-- An input that is handed over and matches no entry of a camera keeps it tracked. -/
theorem Tracked.unmatched {log sent calls : List Call} (htracked : Tracked config timerIds c s log)
    (hmatch : config.matchingInput c event value = none) (hsent : Idle c sent)
    (huntouched : Untouched timerIds c s s' calls) :
    Tracked config timerIds c s' (log ++ .checkDigitalEvents event value :: (sent ++ calls)) := by
  obtain ⟨htimers, hslot, hidle⟩ := huntouched
  have hact : actionOf c (.checkDigitalEvents event value) = none := rfl
  have htrigger : triggerOf config c (.checkDigitalEvents event value) = none := by simp [triggerOf, hmatch]
  have hquiet := idle_append.mpr ⟨hsent, hidle⟩
  have hpending : pendingTrigger config c (log ++ .checkDigitalEvents event value :: (sent ++ calls)) =
      pendingTrigger config c log := by
    rw [pendingTrigger, pendingAfter_append, pendingAfter_cons, pendingStep_idle htrigger hact,
      pendingAfter_idle hquiet.quiet]
    rfl
  refine ⟨?_, ?_, actsOnPending_append.mpr ⟨htracked.latest, by simp [hact], hquiet.actsOnPending _⟩,
    htracked.atOnce.append (actedAtOnce_report (fun x hx => (hquiet x hx).2) (by simp [hmatch]))⟩
  · rw [hpending, htimers]
    exact htracked.idle
  · rw [hpending, htimers, hslot]
    exact htracked.armed

/-- An input that matches an entry with a delay leaves the camera tracked, with its timer running. -/
theorem Tracked.delayed {log sent calls : List Call} {e : InputForEventControlledCamera} {i : ℕ}
    (htracked : Tracked config timerIds c s log) (hmatch : config.matchingInput c event value = some (e, i))
    (hdelay : 0 < e.actionDelayAfterEventTrigger) (hsent : Idle c sent)
    (hslot : s'.discreteInputTimerArr c = ⟨timerIds c, some (c, i), some c⟩)
    (htimer : s'.timers (timerIds c) = some (e.actionDelayAfterEventTrigger * 1000)) (hidle : Idle c calls) :
    Tracked config timerIds c s' (log ++ .checkDigitalEvents event value :: (sent ++ calls)) := by
  have hact : actionOf c (.checkDigitalEvents event value) = none := rfl
  have htrigger : triggerOf config c (.checkDigitalEvents event value) = some (c, i) := by simp [triggerOf, hmatch]
  have hquiet := idle_append.mpr ⟨hsent, hidle⟩
  have hpending : pendingTrigger config c (log ++ .checkDigitalEvents event value :: (sent ++ calls)) =
      some (c, i) := by
    rw [pendingTrigger, pendingAfter_append, pendingAfter_cons, pendingStep_trigger htrigger,
      pendingAfter_idle hquiet.quiet]
  refine ⟨fun hnone => ?_, fun ptr hptr => ?_,
    actsOnPending_append.mpr ⟨htracked.latest, by simp [hact], hquiet.actsOnPending _⟩,
    htracked.atOnce.append (actedAtOnce_report (fun x hx => (hquiet x hx).2) ?_)⟩
  · rw [hpending] at hnone
    cases hnone
  · obtain rfl := Option.some.inj (hpending.symm.trans hptr)
    exact ⟨hslot, e, i, rfl, (eventInput_of_matchingInput hmatch).1, hdelay, htimer⟩
  · intro e' i' hmatch' hdelay'
    obtain ⟨rfl, rfl⟩ := Prod.mk.inj (Option.some.inj (hmatch.symm.trans hmatch'))
    omega

/-- An input that matches an entry without a delay leaves the camera tracked, with the action performed among idle
calls. -/
theorem Tracked.performed {log sent between rest : List Call} {e : InputForEventControlledCamera} {i : ℕ}
    (htracked : Tracked config timerIds c s log) (hmatch : config.matchingInput c event value = some (e, i))
    (hsent : Idle c sent) (htimer : s'.timers (timerIds c) = none) (hbetween : Idle c between) (hrest : Idle c rest) :
    Tracked config timerIds c s' (log ++ .checkDigitalEvents event value ::
      (sent ++ (between ++ .performDiscreteInputAction (some c) (some (c, i)) c :: rest))) := by
  have hact : actionOf c (.checkDigitalEvents event value) = none := rfl
  have htrigger : triggerOf config c (.checkDigitalEvents event value) = some (c, i) := by simp [triggerOf, hmatch]
  set action := Call.performDiscreteInputAction (some c) (some (c, i)) c with haction
  have hperformed : actionOf c action = some (c, i) := by simp [haction, actionOf]
  have hbefore := idle_append.mpr ⟨hsent, hbetween⟩
  have hassoc : sent ++ (between ++ action :: rest) = (sent ++ between) ++ action :: rest := by simp
  have hpending : pendingTrigger config c (log ++ .checkDigitalEvents event value ::
      (sent ++ (between ++ action :: rest))) = none := by
    rw [hassoc, pendingTrigger, pendingAfter_append, pendingAfter_cons, pendingStep_trigger htrigger,
      pendingAfter_append, pendingAfter_idle hbefore.quiet, pendingAfter_cons,
      pendingStep_act rfl hperformed, pendingAfter_idle hrest.quiet]
  refine ⟨fun _ => htimer, fun ptr hptr => ?_, ?_, htracked.atOnce.append (actedAtOnce_report ?_ ?_)⟩
  · rw [hpending] at hptr
    cases hptr
  · refine actsOnPending_append.mpr ⟨htracked.latest, by simp [hact], ?_⟩
    rw [hassoc, pendingStep_trigger htrigger]
    refine actsOnPending_append.mpr ⟨hbefore.actsOnPending _, fun t ht => ?_, hrest.actsOnPending _⟩
    rw [pendingAfter_idle hbefore.quiet, ← ht, hperformed]
  · rw [hassoc]
    intro x hx
    rcases List.mem_append.mp hx with hx | hx
    · exact (hbefore x hx).2
    · rcases List.mem_cons.mp hx with rfl | hx
      · exact fun _ _ h => by rw [haction] at h; cases h
      · exact (hrest x hx).2
  · intro e' i' hmatch' _
    obtain ⟨rfl, rfl⟩ := Prod.mk.inj (Option.some.inj (hmatch.symm.trans hmatch'))
    exact ⟨sent ++ between, rest, hassoc, hbefore⟩

/-- An input that is handed over and then served for a camera keeps it tracked. -/
theorem Tracked.served {log sent calls : List Call} (htracked : Tracked config timerIds c s log)
    (hsent : Idle c sent) (hserved : Served config timerIds event value c s s' calls) :
    Tracked config timerIds c s' (log ++ (.checkDigitalEvents event value :: sent ++ calls)) := by
  rw [List.cons_append]
  unfold Served at hserved
  cases hmatch : config.matchingInput c event value with
  | none =>
    rw [hmatch] at hserved
    exact htracked.unmatched hmatch hsent hserved
  | some found =>
    obtain ⟨e, i⟩ := found
    rw [hmatch] at hserved
    obtain ⟨hslot, hserved⟩ := hserved
    split at hserved
    · rename_i hdelay
      obtain ⟨htimer, hidle⟩ := hserved
      exact htracked.delayed hmatch hdelay hsent hslot htimer hidle
    · obtain ⟨htimer, between, rest, rfl, hbetween, hrest⟩ := hserved
      exact htracked.performed hmatch hsent htimer hbetween hrest

/-- An input's turn keeps every camera tracked. -/
theorem processEvent_consistent (hids : DistinctTimers config timerIds) {log : List Call}
    (hinv : Consistent config timerIds s log) (event : ℕ) :
    ∃ s' calls, processEvent config s event = some (s', calls) ∧ Consistent config timerIds s' (log ++ calls) := by
  obtain ⟨s', calls, hloop, hpool, hcameras⟩ :=
    loggedRun_processCamera hids hinv.pool List.nodup_range (fun c hc => List.mem_range.mp hc) event
      (s.triggerValue event)
  obtain ⟨sent, hreport, hidle⟩ := checkDigitalEvents_eq config event (s.triggerValue event)
  refine ⟨s', _, by rw [processEvent, hloop, Option.map_some], hpool, fun c hc => ?_⟩
  rw [hreport]
  exact (hinv.tracked c hc).served (hidle c) ((hcameras c hc).1 (List.mem_range.mpr hc))

/-- A change which leaves the timers and the slots keeps every camera tracked. -/
theorem Consistent.congr {log : List Call} (hinv : Consistent config timerIds s log)
    (htimers : s'.timers = s.timers) (hslots : s'.discreteInputTimerArr = s.discreteInputTimerArr) :
    Consistent config timerIds s' log := by
  refine ⟨hinv.pool.congr htimers hslots, fun c hc => ?_⟩
  have htracked := hinv.tracked c hc
  refine ⟨?_, ?_, htracked.latest, htracked.atOnce⟩
  · rw [htimers]
    exact htracked.idle
  · rw [htimers, hslots]
    exact htracked.armed

/-- Calls which are idle for every camera keep them tracked. -/
theorem Consistent.idle {log calls : List Call} (hinv : Consistent config timerIds s log)
    (hidle : ∀ c, Idle c calls) : Consistent config timerIds s (log ++ calls) :=
  ⟨hinv.pool, fun c hc => (hinv.tracked c hc).untouched ⟨rfl, rfl, hidle c⟩⟩

/-- An expiry finds the camera whose timer has expired. -/
theorem find_timer (hids : DistinctTimers config timerIds) (hpool : Pool config timerIds s)
    (hc : c < config.cameraConfiguration.length) :
    (List.range config.maxNumberOfCameraConfigurations).find?
      (fun i => (s.discreteInputTimerArr i).timerId == timerIds c) = some c := by
  refine (find?_eq_some_iff_first List.pairwise_lt_range).mpr
    ⟨List.mem_range.mpr (lt_of_lt_of_le hc config.room), ?_, fun j _ hj => ?_⟩
  · rw [hpool.ids c, if_pos hc, beq_self_eq_true]
  · rw [hpool.ids j, if_pos (hj.trans hc), beq_eq_false_iff_ne]
    exact fun h => hj.ne (hids j (hj.trans hc) c hc h)

/-- The expiry of a camera's timer performs the action of its open trigger. -/
theorem expiry_spec (hids : DistinctTimers config timerIds) {log : List Call}
    (hinv : Consistent config timerIds s log) (hc : c < config.cameraConfiguration.length) {ptr : EventInputPtr}
    (hpending : pendingTrigger config c log = some ptr) :
    ∃ s' sent, s.step config (.expiry (timerIds c)) =
        some (s', .performDiscreteInputAction (some c) (some ptr) c :: sent) ∧
      s'.ptcTimerActive (timerIds c) = false ∧
      Consistent config timerIds s' (log ++ .performDiscreteInputAction (some c) (some ptr) c :: sent) := by
  obtain ⟨hslot, e, i, rfl, hentry, hdelay, htimer⟩ := (hinv.tracked c hc).armed ptr hpending
  obtain ⟨s', sent, hdone, htimers, hslots, hsent⟩ :=
    performDiscreteInputAction_spec (s.ptcTimerStop (timerIds c)) hc hentry
  have hactive : s.ptcTimerActive (timerIds c) = true := by simp [ptcTimerActive, htimer]
  have hstopped : s'.timers (timerIds c) = none := by simp [htimers, ptcTimerStop]
  refine ⟨s', sent, ?_, by simp [ptcTimerActive, hstopped], (hinv.pool.stop _).congr htimers hslots, fun d hd => ?_⟩
  · simp only [step, hactive, if_true, discreteInputTimerEventHandler, find_timer hids hinv.pool hc, hslot]
    exact hdone
  · by_cases hdc : d = c
    · subst hdc
      set action := Call.performDiscreteInputAction (some d) (some (d, i)) d with haction
      have hperformed : actionOf d action = some (d, i) := by simp [haction, actionOf]
      have hpending' : pendingTrigger config d (log ++ action :: sent) = none := by
        rw [pendingTrigger, pendingAfter_append, pendingAfter_cons, pendingStep_act rfl hperformed,
          pendingAfter_idle (hsent d).quiet]
      refine ⟨fun _ => hstopped, fun ptr hptr => ?_, ?_, ?_⟩
      · rw [hpending'] at hptr
        cases hptr
      · refine actsOnPending_append.mpr ⟨(hinv.tracked d hd).latest, fun t ht => ?_, (hsent d).actsOnPending _⟩
        exact hpending.trans (hperformed.symm.trans ht)
      · refine (hinv.tracked d hd).atOnce.append ?_
        rintro before event value after e' i' hsplit -
        have hmem : Call.checkDigitalEvents event value ∈ action :: sent := by rw [hsplit]; simp
        rcases List.mem_cons.mp hmem with h | h
        · rw [haction] at h
          cases h
        · exact absurd rfl ((hsent d _ h).2 event value)
    · have hne : timerIds d ≠ timerIds c := fun h => hdc (hids d hd c hc h)
      refine (hinv.tracked d hd).untouched ⟨by simp [htimers, ptcTimerStop, hne], congrFun hslots d, fun x hx => ?_⟩
      rcases List.mem_cons.mp hx with rfl | hx
      · exact ⟨by simp [actionOf, Ne.symm hdc], fun _ _ h => by cases h⟩
      · exact hsent d x hx

/-- The power check leaves the timers and the slots. -/
theorem powerChecked_kept (s : EventControl) (p : Poll) :
    (s.powerChecked p).timers = s.timers ∧
      (s.powerChecked p).discreteInputTimerArr = s.discreteInputTimerArr := by
  unfold powerChecked checkPowerDown
  dsimp only
  split
  · split <;> exact ⟨rfl, rfl⟩
  · exact ⟨rfl, rfl⟩

/-- The inputs of a reading keep every camera tracked. -/
theorem processReading_consistent (hids : DistinctTimers config timerIds) {log : List Call}
    (hinv : Consistent config timerIds s log) (reading : BitVec 8) :
    ∃ s' calls, s.processReading config reading = some (s', calls) ∧
      Consistent config timerIds s' (log ++ calls) := by
  have hread : Consistent config timerIds { s with discreteFpgaReg := reading } log := hinv.congr rfl rfl
  have hsaved : Consistent config timerIds
      { s with discreteFpgaReg := reading, prevDiscreteFpgaReg := reading } log := hinv.congr rfl rfl
  unfold processReading
  dsimp only
  split
  · exact loggedRun_total (I := Consistent config timerIds)
      (fun s log event hs => processEvent_consistent hids hs event) hsaved _
  · exact ⟨_, [], rfl, hread.idle fun _ => idle_nil⟩

/-- The messages about the drives are idle. -/
theorem idle_status {calls : List Call} (hstatus : ∀ x ∈ calls, x = .readyStatus true ∨ x = .readyStatus false ∨
    x = .shutdownPowerLoss) (c : ℕ) : Idle c calls := by
  intro x hx
  rcases hstatus x hx with rfl | rfl | rfl <;> exact ⟨rfl, fun _ _ h => by cases h⟩

/-- A poll keeps every camera tracked. -/
theorem checkForEvent_consistent (hids : DistinctTimers config timerIds) {log : List Call}
    (hinv : Consistent config timerIds s log) (p : Poll) :
    ∃ s' calls, s.checkForEvent config p = some (s', calls) ∧ Consistent config timerIds s' (log ++ calls) := by
  have hready : ∀ (asked : Bool) c, Idle c (if asked = true then [Call.readyStatus true] else []) := by
    intro asked
    refine idle_status fun x hx => ?_
    cases asked with
    | true => exact .inl (List.mem_singleton.mp hx)
    | false => cases hx
  have hpolled : Consistent config timerIds ((s.powerChecked p).setDriveStatusRequested false) log :=
    hinv.congr (powerChecked_kept s p).1 (powerChecked_kept s p).2
  unfold checkForEvent
  dsimp only
  split
  · exact ⟨_, _, rfl, hpolled.idle (idle_status (by simp))⟩
  · split
    · obtain ⟨s', calls, hdone, hinv'⟩ := processReading_consistent hids
        (hpolled.idle (hready (s.powerChecked p).videoRecInfo.driveStatusRequested)) (p.regData &&& discreteInputRegMask)
      exact ⟨s', _, by rw [hdone, Option.map_some], by rwa [← List.append_assoc]⟩
    · exact ⟨_, _, rfl, hpolled.idle (hready _)⟩

/-- Every call of the event control succeeds and keeps every camera tracked. -/
theorem step_consistent (hids : DistinctTimers config timerIds) {log : List Call}
    (hinv : Consistent config timerIds s log) (input : Input) :
    ∃ s' calls, s.step config input = some (s', calls) ∧ Consistent config timerIds s' (log ++ calls) := by
  cases input with
  | poll p => exact checkForEvent_consistent hids hinv p
  | expiry tid =>
    by_cases hactive : s.ptcTimerActive tid = true
    · obtain ⟨c, hc, rfl⟩ := hinv.pool.owned tid (by simpa [ptcTimerActive, Option.isSome_iff_ne_none] using hactive)
      cases hpending : pendingTrigger config c log with
      | none => simp [ptcTimerActive, (hinv.tracked c hc).idle hpending] at hactive
      | some ptr =>
        obtain ⟨s', sent, hstep, -, hinv'⟩ := expiry_spec hids hinv hc hpending
        exact ⟨s', _, hstep, hinv'⟩
    · exact ⟨s, [], by simp [step, hactive], hinv.idle fun _ => idle_nil⟩

/-- Every run from the start succeeds, and every camera is tracked at its end. -/
theorem runFromInit_consistent (hids : DistinctTimers config timerIds) (videoRecInfo : VideoRecInfo)
    (inputs : List Input) :
    ∃ s log, runFromInit config timerIds videoRecInfo inputs = some (s, log) ∧ Consistent config timerIds s log := by
  have hinit : Consistent config timerIds (initEventControl config timerIds videoRecInfo) [] :=
    ⟨⟨fun i => rfl, fun tid h => absurd rfl h⟩, fun c _ =>
      ⟨fun _ => rfl, fun ptr hptr => (by cases hptr), trivial, idle_nil.actedAtOnce⟩⟩
  exact loggedRun_total (I := Consistent config timerIds) (fun s log input hs => step_consistent hids hs input)
    hinit inputs

/-- In every run of polls and expiries, a camera's timer is active exactly when its most recent trigger is
still to be acted on, with the delay and the pointers of that trigger, and expires into its action; a
trigger without a delay is acted on before anything else is handed over; and what is performed is always
the most recent trigger's action, once. -/
theorem latest_trigger_wins (hids : DistinctTimers config timerIds) (videoRecInfo : VideoRecInfo)
    (inputs : List Input) :
    ∃ s log, runFromInit config timerIds videoRecInfo inputs = some (s, log) ∧
      ∀ c < config.cameraConfiguration.length,
        (s.ptcTimerActive (timerIds c) = true ↔ ∃ ptr, OpenTrigger config c log ptr) ∧
        (∀ ptr, OpenTrigger config c log ptr →
          (∃ e, config.eventInput ptr = some e ∧ 0 < e.actionDelayAfterEventTrigger ∧
            s.timers (timerIds c) = some (e.actionDelayAfterEventTrigger * 1000)) ∧
          ∃ s' sent, s.step config (.expiry (timerIds c)) =
            some (s', .performDiscreteInputAction (some c) (some ptr) c :: sent) ∧
              s'.ptcTimerActive (timerIds c) = false) ∧
        ActedAtOnce config c log ∧
        ∀ before call after ptr, log = before ++ call :: after → actionOf c call = some ptr →
          OpenTrigger config c before ptr := by
  obtain ⟨s, log, hrun, hinv⟩ := runFromInit_consistent hids videoRecInfo inputs
  refine ⟨s, log, hrun, fun c hc => ?_⟩
  have htracked := hinv.tracked c hc
  refine ⟨⟨fun hactive => ?_, ?_⟩, fun ptr hopen => ?_, htracked.atOnce, ?_⟩
  · cases hpending : pendingTrigger config c log with
    | none => simp [ptcTimerActive, htracked.idle hpending] at hactive
    | some ptr => exact ⟨ptr, pendingTrigger_eq_some.mp hpending⟩
  · rintro ⟨ptr, hopen⟩
    obtain ⟨-, e, i, -, -, -, htimer⟩ := htracked.armed ptr (pendingTrigger_eq_some.mpr hopen)
    simp [ptcTimerActive, htimer]
  · have hpending := pendingTrigger_eq_some.mpr hopen
    obtain ⟨-, e, i, -, hentry, hdelay, htimer⟩ := htracked.armed ptr hpending
    obtain ⟨s', sent, hstep, hstopped, -⟩ := expiry_spec hids hinv hc hpending
    exact ⟨⟨e, hentry, hdelay, htimer⟩, s', sent, hstep, hstopped⟩
  · rintro before call after ptr rfl hact
    exact htracked.latest.latest hact

/-- Two cameras which the first input pauses after five seconds, and of which it resumes the first one at once. -/
def pausingConfig : Configuration where
  maxNumberOfCameraConfigurations := 16
  cameraNameLength := 12
  dinRegDataUnknown := 255
  digitalInputConfiguration := [⟨1, true, "HORN".toList⟩]
  cameraConfiguration :=
    [⟨"FRONT".toList, true, [⟨1, 1, 5, .pause, 0⟩, ⟨1, 0, 0, .record, 0⟩]⟩,
      ⟨"REAR".toList, true, [⟨1, 1, 5, .pause, 0⟩]⟩]
  room := by decide

theorem latest_trigger_wins_pausing :
    ∃ s log, runFromInit pausingConfig (fun c => c) ⟨false, fun _ => false, fun _ => 30⟩
        [.poll ⟨some false, false, true, 1⟩, .poll ⟨some false, false, true, 0⟩, .expiry 1] = some (s, log) ∧
      (s.ptcTimerActive 0 = true ↔ ∃ ptr, OpenTrigger pausingConfig 0 log ptr) ∧
        ActedAtOnce pausingConfig 0 log := by
  have hids : DistinctTimers pausingConfig fun c => c := fun i _ j _ h => Int.natCast_inj.mp h
  obtain ⟨s, log, hrun, hcameras⟩ := latest_trigger_wins hids ⟨false, fun _ => false, fun _ => 30⟩
    [.poll ⟨some false, false, true, 1⟩, .poll ⟨some false, false, true, 0⟩, .expiry 1]
  obtain ⟨hactive, -, hatOnce, -⟩ := hcameras 0 (by decide)
  exact ⟨s, log, hrun, hactive, hatOnce⟩

end EventControl

end RecordingAgent.VideoRec
