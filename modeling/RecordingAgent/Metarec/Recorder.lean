import RecordingAgent.Metarec.ChunkOrder
import RecordingAgent.Metarec.Messages

/-!
# The recorder of metadata

The main loop and the recording thread, with the queue between them, taking their steps in any order. The main loop puts
the record of a message behind the queue; when the wait for room has ended in vain the record is dropped. It announces
a forward change of the time behind the record, so the thread may come in between. A round of the thread is one step.

Whatever the order of the steps, the files of a drive have the records of the messages in their order, and only those
for which the drive was commanded by the last message that says something about it, or which were taken while no
command had changed since the start.
-/

namespace RecordingAgent.Metarec

open Foundation

/-- The process. -/
structure Recorder where
  running : Bool
  messages : MsgState
  /-- The message loop is going to announce a forward time change. -/
  timeChange : Bool
  queue : List Record
  io : MetaIo

/-- A step of one of the two threads. -/
inductive RecorderStep
  /-- The main program makes a record of the environment or of the locomotive. -/
  | startUp (r : Record)
  | message (now : Clocks) (m : PtcMsg)
  | announce
  | round (now : Timespec)
  | stop

namespace Recorder

variable (cfg : Config) (api : MetaApi)

/-- `enq_metadata_descriptor` -/
def enqueue (s : Recorder) : Option Record → Recorder
  | some r => if s.queue.length < metadataDescQueueSize then { s with queue := s.queue ++ [r] } else s
  | none => s

/-- `update_forward_time_change_status(true)`, if that is what the loop is going to do. -/
def announce (s : Recorder) : Recorder :=
  if s.timeChange then { s with timeChange := false, io := s.io.step cfg .forwardTimeChange } else s

/-- `ptc_poll` with a message; the handler of the message before has returned. -/
def handle (s : Recorder) (now : Clocks) (m : PtcMsg) : Recorder :=
  let s := s.announce cfg
  let handled := msgcb api now s.messages m
  { s.enqueue handled.record with messages := handled.state, timeChange := handled.timeChange }

/-- What `ptci_get_rm_meta` says about the drives. -/
def commands (s : Recorder) : Drive → Bool := commandedDrives s.messages.commandedRecordingMode

/-- A round of the thread. -/
def round (s : Recorder) (now : Timespec) : Recorder :=
  match s.queue with
  | r :: queue => { s with queue, io := s.io.step cfg (.record s.commands r) }
  | [] => { s with io := s.io.step cfg (.idle now) }

/-- The loop ends and joins the thread. -/
def finish (s : Recorder) : Recorder :=
  let s := s.announce cfg
  { s with running := false, io := s.io.step cfg .stop }

def step (s : Recorder) (e : RecorderStep) : Recorder :=
  if s.running then
    match e with
    | .startUp r => s.enqueue (some r)
    | .message now m => s.handle cfg api now m
    | .announce => s.announce cfg
    | .round now => s.round cfg now
    | .stop => s.finish cfg
  else s

/-- The process when its thread has been started in a recording mode. -/
def start (rm : BitVec 32) : Recorder where
  running := true
  messages := ⟨0, rm, digitalEventsConfigMap api.numDigitalInputs⟩
  timeChange := false
  queue := []
  io := MetaIo.start (commandedDrives rm)

end Recorder

/-- The record which a step makes. -/
def RecorderStep.record (api : MetaApi) : RecorderStep → Option Record
  | .startUp r => some r
  | .message now m => recordOf api now m
  | _ => none

/-- The message which a step handles. -/
def RecorderStep.message? : RecorderStep → Option PtcMsg
  | .message _ m => some m
  | _ => none

/-- The steps before the process is stopped. -/
def untilStop : List RecorderStep → List RecorderStep
  | [] => []
  | .stop :: _ => []
  | e :: es => e :: untilStop es

/-- The records which the steps make. -/
def recordsMade (api : MetaApi) (es : List RecorderStep) : List Record := es.filterMap (RecorderStep.record api)

/-- The command of a drive when these steps have been taken. -/
def commandIn (api : MetaApi) (rm : BitVec 32) (es : List RecorderStep) (d : Drive) : Bool :=
  commandAfter api rm d (es.filterMap RecorderStep.message?)

namespace Recorder

/-- The queue has room when a record is made. -/
def HasRoom (api : MetaApi) (s : Recorder) (e : RecorderStep) : Prop :=
  (e.record api).isSome = true → s.queue.length < metadataDescQueueSize

/-- The process as the steps leave it. -/
def after (cfg : Config) (api : MetaApi) (rm : BitVec 32) (es : List RecorderStep) : Recorder :=
  run (step cfg api) (start api rm) es

/-- The files of each drive have records of the queue, which has those of the messages, in their order and each at most
once; none is missing in the queue if there was room for each. -/
structure InMessageOrder (cfg : Config) (api : MetaApi) (rm : BitVec 32) (es : List RecorderStep) (s : Recorder) :
    Prop where
  filed : ∀ d, ((s.io.filed d).map Prod.snd).Sublist (s.io.taken.map Prod.snd)
  queued : (s.io.taken.map Prod.snd ++ s.queue).Sublist (recordsMade api es)
  complete : Guarded (step cfg api) (HasRoom api) (start api rm) es →
    s.io.taken.map Prod.snd ++ s.queue = recordsMade api es

/-- A round of the thread took the record under this command, when these had been taken. -/
def TakenIn (cfg : Config) (api : MetaApi) (rm : BitVec 32) (es : List RecorderStep)
    (before : List ((Drive → Bool) × Record)) (r : Record) (command : Drive → Bool) : Prop :=
  ∃ earlier now later, es = earlier ++ .round now :: later ∧ (after cfg api rm earlier).running = true ∧
    (after cfg api rm earlier).io.taken = before ∧ (after cfg api rm earlier).queue.head? = some r ∧
    command = commandIn api rm earlier

variable {cfg : Config} {api : MetaApi} {rm : BitVec 32} {es : List RecorderStep} {s : Recorder} {e : RecorderStep}

theorem TakenIn.append {before : List ((Drive → Bool) × Record)} {r : Record} {command : Drive → Bool}
    (h : TakenIn cfg api rm es before r command) (more : List RecorderStep) :
    TakenIn cfg api rm (es ++ more) before r command := by
  obtain ⟨earlier, now, later, rfl, h⟩ := h
  exact ⟨earlier, now, later ++ more, by rw [List.append_assoc, List.cons_append], h⟩

/-- What the steps before the process is stopped keep. -/
structure Recording (cfg : Config) (api : MetaApi) (rm : BitVec 32) (es : List RecorderStep) (s : Recorder) : Prop where
  running : s.running = true
  reached : s = after cfg api rm es
  ran : ∃ events, s.io.Ran cfg (commandedDrives rm) events
  commands : s.commands = commandIn api rm es
  queued : (s.io.taken.map Prod.snd ++ s.queue).Sublist (recordsMade api es)
  complete : Guarded (step cfg api) (HasRoom api) (start api rm) es →
    s.io.taken.map Prod.snd ++ s.queue = recordsMade api es
  taken : ∀ k command r, s.io.taken[k]? = some (command, r) → TakenIn cfg api rm es (s.io.taken.take k) r command

theorem recording_start (cfg : Config) (api : MetaApi) (rm : BitVec 32) : (start api rm).Recording cfg api rm [] where
  running := rfl
  reached := rfl
  ran := ⟨[], MetaIo.ran_start cfg _⟩
  commands := rfl
  queued := List.Sublist.refl _
  complete _ := rfl
  taken _ _ _ h := by cases h

theorem after_append (cfg : Config) (api : MetaApi) (rm : BitVec 32) (es : List RecorderStep) (e : RecorderStep) :
    after cfg api rm (es ++ [e]) = (after cfg api rm es).step cfg api e := run_append _ _ _

/-- The announcement leaves all but the flag as it was. -/
structure Announced (s t : Recorder) : Prop where
  running : t.running = s.running
  messages : t.messages = s.messages
  queue : t.queue = s.queue
  taken : t.io.taken = s.io.taken

theorem announce_announced (h : ∃ events, s.io.Ran cfg (commandedDrives rm) events) :
    Announced s (s.announce cfg) ∧ ∃ events, (s.announce cfg).io.Ran cfg (commandedDrives rm) events := by
  obtain ⟨events, hran⟩ := h
  unfold announce
  split
  · have hstep := hran.step (e := .forwardTimeChange) fun h => by cases h
    exact ⟨⟨rfl, rfl, rfl, (MetaIo.step_inOrder hran.order hran.active _).2.1.trans (List.append_nil _)⟩, _, hstep⟩
  · exact ⟨⟨rfl, rfl, rfl, rfl⟩, events, hran⟩

/-- Enqueueing touches only the queue, which gets the record if it has room. -/
theorem enqueue_eq (s : Recorder) (r : Option Record) :
    ∃ added, s.enqueue r = { s with queue := s.queue ++ added } ∧ added.Sublist r.toList ∧
      ((r.isSome = true → s.queue.length < metadataDescQueueSize) → added = r.toList) := by
  cases r with
  | none => exact ⟨[], by rw [List.append_nil]; rfl, List.Sublist.refl _, fun _ => rfl⟩
  | some r =>
    by_cases hroom : s.queue.length < metadataDescQueueSize
    · exact ⟨[r], if_pos hroom, List.Sublist.refl _, fun _ => rfl⟩
    · refine ⟨[], ?_, List.nil_sublist _, fun h => absurd (h rfl) hroom⟩
      rw [List.append_nil]
      exact if_neg hroom

theorem recordsMade_append (api : MetaApi) (es : List RecorderStep) (e : RecorderStep) :
    recordsMade api (es ++ [e]) = recordsMade api es ++ (e.record api).toList := by
  rw [recordsMade, List.filterMap_append]
  cases h : e.record api with
  | none => rw [List.filterMap_cons_none h]; rfl
  | some r => rw [List.filterMap_cons_some h]; rfl

/-- A step of the main loop puts at most its record into the queue. -/
theorem Recording.of_enqueue {t : Recorder} (added : List Record) (h : s.Recording cfg api rm es)
    (hstep : s.step cfg api e = t) (hrunning : t.running = true)
    (hran : ∃ events, t.io.Ran cfg (commandedDrives rm) events)
    (hcommands : t.commands = commandIn api rm (es ++ [e])) (htaken : t.io.taken = s.io.taken)
    (hqueue : t.queue = s.queue ++ added) (hadded : added.Sublist (e.record api).toList)
    (hroom : HasRoom api s e → added = (e.record api).toList) : t.Recording cfg api rm (es ++ [e]) := by
  refine ⟨hrunning, ?_, hran, hcommands, ?_, fun hguarded => ?_, fun k command r hk => ?_⟩
  · rw [after_append, ← h.reached, hstep]
  · rw [htaken, hqueue, recordsMade_append, ← List.append_assoc]
    exact h.queued.append hadded
  · obtain ⟨hbefore, hlast, -⟩ := (guarded_append _ _ _).mp hguarded
    have hhas : HasRoom api s e := by
      rw [h.reached]
      exact hlast
    rw [htaken, hqueue, recordsMade_append, ← List.append_assoc, h.complete hbefore, hroom hhas]
  · rw [htaken] at hk ⊢
    exact (h.taken k command r hk).append [e]

theorem commandIn_append (api : MetaApi) (rm : BitVec 32) (es : List RecorderStep) (e : RecorderStep) (d : Drive) :
    commandIn api rm (es ++ [e]) d = (e.message?.bind (told api d)).getD (commandIn api rm es d) := by
  rw [commandIn, List.filterMap_append]
  cases h : e.message? with
  | none =>
    rw [List.filterMap_cons_none h, List.filterMap_nil, List.append_nil]
    rfl
  | some m =>
    rw [List.filterMap_cons_some h, List.filterMap_nil, commandAfter_append]
    rfl

/-- Only messages command the drives. -/
theorem commandIn_of_silent (h : e.message? = none) : commandIn api rm (es ++ [e]) = commandIn api rm es := by
  funext d
  rw [commandIn_append, h]
  rfl

theorem Recording.startUp (h : s.Recording cfg api rm es) (r : Record) :
    (s.enqueue (some r)).Recording cfg api rm (es ++ [.startUp r]) := by
  obtain ⟨added, hqueue, hadded, hroom⟩ := enqueue_eq s (some r)
  have hstep : s.step cfg api (.startUp r) = s.enqueue (some r) := if_pos h.running
  refine h.of_enqueue added hstep ?_ ?_ ?_ ?_ ?_ hadded hroom <;> rw [hqueue]
  · exact h.running
  · exact h.ran
  · exact h.commands.trans (commandIn_of_silent rfl).symm

theorem Recording.announce (h : s.Recording cfg api rm es) :
    (s.announce cfg).Recording cfg api rm (es ++ [.announce]) := by
  obtain ⟨hsame, hran⟩ := announce_announced h.ran
  have hstep : s.step cfg api .announce = s.announce cfg := if_pos h.running
  have hcommands : (s.announce cfg).commands = s.commands := by rw [Recorder.commands, hsame.messages]; rfl
  exact h.of_enqueue [] hstep (hsame.running.trans h.running) hran
    (hcommands.trans (h.commands.trans (commandIn_of_silent rfl).symm)) hsame.taken
    (hsame.queue.trans (List.append_nil _).symm) (List.Sublist.refl _) fun _ => rfl

theorem Recording.handle (h : s.Recording cfg api rm es) (now : Clocks) (m : PtcMsg) :
    (s.handle cfg api now m).Recording cfg api rm (es ++ [.message now m]) := by
  obtain ⟨hsame, hran⟩ := announce_announced h.ran
  obtain ⟨t, ht⟩ : ∃ t, s.announce cfg = t := ⟨_, rfl⟩
  have hstep : s.step cfg api (.message now m) = s.handle cfg api now m := if_pos h.running
  obtain ⟨added, hqueue, hadded, hroom⟩ := enqueue_eq t (msgcb api now t.messages m).record
  have hhandle : s.handle cfg api now m = { t with
      messages := (msgcb api now t.messages m).state
      timeChange := (msgcb api now t.messages m).timeChange
      queue := t.queue ++ added } := by
    rw [Recorder.handle, ht, hqueue]
  rw [ht] at hsame hran
  rw [msgcb_record] at hadded hroom
  refine h.of_enqueue added hstep ?_ ?_ ?_ ?_ ?_ hadded fun hhas => hroom fun hsome => ?_
  · rw [hhandle]
    exact hsame.running.trans h.running
  · rw [hhandle]
    exact hran
  · rw [hhandle]
    funext d
    have hd : commandedDrives s.messages.commandedRecordingMode d = commandIn api rm es d := congrFun h.commands d
    rw [commandIn_append, ← hd, ← hsame.messages]
    exact commandedDrives_msgcb api now t.messages m d
  · rw [hhandle]
    exact hsame.taken
  · rw [hhandle, ← hsame.queue]
  · rw [hsame.queue]
    exact hhas hsome

theorem Recording.round (h : s.Recording cfg api rm es) (now : Timespec) :
    (s.round cfg now).Recording cfg api rm (es ++ [.round now]) := by
  obtain ⟨events, hran⟩ := h.ran
  have hstep : s.step cfg api (.round now) = s.round cfg now := if_pos h.running
  have hreached : s.round cfg now = after cfg api rm (es ++ [.round now]) := by rw [after_append, ← h.reached, hstep]
  have hcommands : s.commands = commandIn api rm (es ++ [.round now]) :=
    h.commands.trans (commandIn_of_silent rfl).symm
  have hmade : recordsMade api (es ++ [.round now]) = recordsMade api es :=
    (recordsMade_append api es _).trans (List.append_nil _)
  cases hqueue : s.queue with
  | nil =>
    have hround : s.round cfg now = { s with io := s.io.step cfg (.idle now) } := by
      rw [Recorder.round, hqueue]
    have htaken : (s.io.step cfg (.idle now)).taken = s.io.taken :=
      (MetaIo.step_inOrder hran.order hran.active _).2.1.trans (List.append_nil _)
    have hidle := hran.step (e := .idle now) fun heq => by cases heq
    refine h.of_enqueue [] hstep ?_ ?_ ?_ ?_ ?_ (List.Sublist.refl _) fun _ => rfl
    · rw [hround]
      exact h.running
    · rw [hround]
      exact ⟨_, hidle⟩
    · rw [hround]
      exact hcommands
    · rw [hround]
      exact htaken
    · rw [hround, List.append_nil]
  | cons r queue =>
    have hround : s.round cfg now = { s with queue, io := s.io.step cfg (.record s.commands r) } := by
      rw [Recorder.round, hqueue]
    have htaken : (s.io.step cfg (.record s.commands r)).taken = s.io.taken ++ [(s.commands, r)] :=
      (MetaIo.step_inOrder hran.order hran.active _).2.1
    have hrecord := hran.step (e := .record s.commands r) fun heq => by cases heq
    -- the record moves from the front of the queue behind those which were taken
    have hmoved : (s.round cfg now).io.taken.map Prod.snd ++ (s.round cfg now).queue =
        s.io.taken.map Prod.snd ++ s.queue := by
      rw [hround, hqueue]
      dsimp only
      rw [htaken, List.map_append, List.append_assoc]
      rfl
    refine ⟨?_, hreached, ?_, ?_, ?_, fun hguarded => ?_, fun k command r' hk => ?_⟩
    · rw [hround]
      exact h.running
    · rw [hround]
      exact ⟨_, hrecord⟩
    · rw [hround]
      exact hcommands
    · rw [hmoved, hmade]
      exact h.queued
    · rw [hmoved, hmade]
      exact h.complete ((guarded_append _ _ _).mp hguarded).1
    · rw [hround] at hk ⊢
      dsimp only at hk ⊢
      rw [htaken] at hk ⊢
      by_cases hlt : k < s.io.taken.length
      · rw [List.getElem?_append_left hlt] at hk
        rw [List.take_append_of_le_length (Nat.le_of_lt hlt)]
        exact (h.taken k command r' hk).append [.round now]
      · have hlast : k = s.io.taken.length := by
          have hbound := (List.getElem?_eq_some_iff.mp hk).1
          rw [List.length_append, List.length_singleton] at hbound
          omega
        subst hlast
        rw [List.getElem?_concat_length, Option.some.injEq, Prod.mk.injEq] at hk
        obtain ⟨rfl, rfl⟩ := hk
        rw [List.take_append_of_le_length (Nat.le_refl _), List.take_length]
        refine ⟨es, now, [], rfl, ?_, ?_, ?_, h.commands⟩ <;> rw [← h.reached]
        · exact h.running
        · rw [hqueue]
          rfl

/-- A step which does not stop the process. -/
theorem Recording.step (h : s.Recording cfg api rm es) (e : RecorderStep) :
    e = .stop ∨ (s.step cfg api e).Recording cfg api rm (es ++ [e]) := by
  have hstep : ∀ t, (if s.running then t else s) = t := fun t => if_pos h.running
  unfold Recorder.step
  rw [hstep]
  cases e with
  | startUp r => exact Or.inr (h.startUp r)
  | message now m => exact Or.inr (h.handle now m)
  | announce => exact Or.inr h.announce
  | round now => exact Or.inr (h.round now)
  | stop => exact Or.inl rfl

theorem untilStop_cons (h : e ≠ .stop) (es : List RecorderStep) : untilStop (e :: es) = e :: untilStop es := by
  cases e with
  | stop => exact absurd rfl h
  | _ => rfl

theorem untilStop_prefix (es : List RecorderStep) : untilStop es <+: es := by
  induction es with
  | nil => exact List.prefix_refl _
  | cons e es ih =>
    cases e with
    | stop => exact List.nil_prefix
    | _ => exact (List.prefix_cons_inj _).mpr ih

theorem run_of_stopped (h : s.running = false) (es : List RecorderStep) : run (Recorder.step cfg api) s es = s := by
  induction es with
  | nil => rfl
  | cons e es ih =>
    have hstep : s.step cfg api e = s := if_neg (by rw [h]; exact Bool.false_ne_true)
    rw [run_cons, hstep, ih]

/-- A run ends before it is stopped, or behind the end of the loop. -/
theorem Recording.run (h : s.Recording cfg api rm es) (more : List RecorderStep) :
    ∃ t, t.Recording cfg api rm (es ++ untilStop more) ∧
      (run (Recorder.step cfg api) s more = t ∨ run (Recorder.step cfg api) s more = t.finish cfg) := by
  induction more generalizing s es with
  | nil => exact ⟨s, by rw [untilStop, List.append_nil]; exact h, Or.inl rfl⟩
  | cons e more ih =>
    cases h.step e with
    | inl hstop =>
      subst hstop
      have hfinish : s.step cfg api .stop = s.finish cfg := if_pos h.running
      refine ⟨s, by rw [untilStop, List.append_nil]; exact h, Or.inr ?_⟩
      rw [run_cons, hfinish]
      exact run_of_stopped rfl more
    | inr hnext =>
      by_cases hstop : e = .stop
      · subst hstop
        have hrunning := hnext.running
        rw [show s.step cfg api .stop = s.finish cfg from if_pos h.running] at hrunning
        cases hrunning
      · rw [untilStop_cons hstop, List.append_cons]
        exact ih hnext

/-- The records which were dequeued, and the files with them, when the process has got there. -/
structure Ended (cfg : Config) (rm : BitVec 32) (before s : Recorder) : Prop where
  queue : s.queue = before.queue
  taken : s.io.taken = before.io.taken
  order : s.io.InOrder s.io.taken
  closed : ∃ history, history.map Taken.entry = before.io.taken ∧
    s.io.AllClosed (OneStretch cfg (commandedDrives rm) history)

theorem Recording.ended (h : s.Recording cfg api rm es) : Ended cfg rm s s ∧ Ended cfg rm s (s.finish cfg) := by
  constructor
  · obtain ⟨events, hran⟩ := h.ran
    refine ⟨rfl, rfl, hran.order, takenFrom 0 events, ?_, ?_⟩
    · rw [MetaIo.takenFrom_entries events hran.unstopped, hran.taken]
    · rw [hran.state]
      exact MetaIo.closed_oneStretch cfg _ events
  · obtain ⟨hsame, events, hran⟩ := announce_announced h.ran
    obtain ⟨-, htaken, horder⟩ := @MetaIo.step_inOrder cfg _ hran.order hran.active .stop
    have hkept : ((s.announce cfg).io.step cfg .stop).taken = (s.announce cfg).io.taken :=
      htaken.trans (List.append_nil _)
    refine ⟨hsame.queue, hkept.trans hsame.taken, horder, takenFrom 0 (events ++ [.stop]), ?_, ?_⟩
    · rw [MetaIo.takenFrom_stop, MetaIo.takenFrom_entries events hran.unstopped, ← hran.taken, hsame.taken]
    · have hstate : (s.finish cfg).io = Foundation.run (MetaIo.step cfg) (MetaIo.start (commandedDrives rm))
          (events ++ [.stop]) := by
        rw [run_append, ← hran.state]
        rfl
      rw [hstate]
      exact MetaIo.closed_oneStretch cfg _ _

theorem after_ended (cfg : Config) (api : MetaApi) (rm : BitVec 32) (es : List RecorderStep) :
    ∃ t, t.Recording cfg api rm (untilStop es) ∧ Ended cfg rm t (after cfg api rm es) := by
  obtain ⟨t, hrecording, hend⟩ := (recording_start cfg api rm).run es
  refine ⟨t, hrecording, ?_⟩
  cases hend with
  | inl hend =>
    rw [after, hend]
    exact hrecording.ended.1
  | inr hend =>
    rw [after, hend]
    exact hrecording.ended.2

/-- A round took the numbered record when the drive was commanded by the last message which says something about it; or
the drive was commanded at the start, and all records up to this one were taken under one command. -/
def RecordedIn (cfg : Config) (api : MetaApi) (rm : BitVec 32) (es : List RecorderStep) (d : Drive) (q : ℕ × Record) :
    Prop :=
  ∃ earlier now later, es = earlier ++ .round now :: later ∧ (after cfg api rm earlier).running = true ∧
    (after cfg api rm earlier).io.taken.length = q.1 ∧ (after cfg api rm earlier).queue.head? = some q.2 ∧
    (commandIn api rm earlier d = true ∨ commandedDrives rm d = true ∧
      ∀ t ∈ (after cfg api rm earlier).io.taken, t.1 = commandIn api rm earlier)

theorem recordedIn_of_closed {d : Drive} {c : ClosedChunk} {q : ℕ × Record}
    (hc : c ∈ (after cfg api rm es).io.renamed d) (hq : q ∈ c.records) : RecordedIn cfg api rm es d q := by
  obtain ⟨t, hrecording, hended⟩ := after_ended cfg api rm es
  obtain ⟨history, hentries, hclosed⟩ := hended.closed
  obtain ⟨rest, hrest⟩ := untilStop_prefix es
  obtain ⟨a, hget, hrecord, hcommand⟩ := (hclosed d c hc).commanded hq
  have htaken : t.io.taken[q.1]? = some (a.rm, q.2) := by
    rw [← hentries, List.getElem?_map, hget, ← hrecord]
    rfl
  obtain ⟨earlier, now, later, hearlier, hrunning, hbefore, hhead, hrm⟩ :=
    (hrecording.taken q.1 a.rm q.2 htaken).append rest
  have hbound : q.1 < t.io.taken.length := (List.getElem?_eq_some_iff.mp htaken).1
  refine ⟨earlier, now, later, hrest.symm.trans hearlier, hrunning, ?_, hhead, ?_⟩
  · rw [hbefore, List.length_take, Nat.min_eq_left (Nat.le_of_lt hbound)]
  · rw [← hrm]
    refine hcommand.imp id fun hall => ⟨hall.1, fun b hb => ?_⟩
    rw [hbefore, ← hentries, ← List.map_take] at hb
    obtain ⟨b', hb', rfl⟩ := List.mem_map.mp hb
    exact hall.2 b' hb'

/-- A round of a process which runs takes the record at the front of the queue. -/
theorem taken_round {r : Record} (hrunning : (after cfg api rm es).running = true)
    (hhead : (after cfg api rm es).queue.head? = some r) (now : Timespec) :
    (after cfg api rm (es ++ [.round now])).io.taken =
      (after cfg api rm es).io.taken ++ [((after cfg api rm es).commands, r)] := by
  obtain ⟨t, hrecording, hend⟩ := (recording_start cfg api rm).run es
  change after cfg api rm es = t ∨ after cfg api rm es = t.finish cfg at hend
  cases hend with
  | inl hend =>
    obtain ⟨events, hran⟩ := hrecording.ran
    rw [after_append]
    rw [hend] at hhead ⊢
    obtain ⟨queue, hqueue⟩ := List.head?_eq_some_iff.mp hhead
    have hround : t.step cfg api (.round now) = { t with queue, io := t.io.step cfg (.record t.commands r) } := by
      refine (if_pos hrecording.running).trans ?_
      dsimp only
      rw [Recorder.round, hqueue]
    rw [hround]
    exact (MetaIo.step_inOrder hran.order hran.active _).2.1
  | inr hend =>
    rw [hend] at hrunning
    cases hrunning

/-- What was dequeued stays so. -/
theorem Recording.taken_prefix (h : s.Recording cfg api rm es) (e : RecorderStep) :
    s.io.taken <+: (s.step cfg api e).io.taken := by
  obtain ⟨hsame, events, hran⟩ := announce_announced h.ran
  have hstep : ∀ t, (if s.running then t else s) = t := fun t => if_pos h.running
  unfold Recorder.step
  rw [hstep]
  cases e with
  | startUp r =>
    obtain ⟨added, hqueue, -⟩ := enqueue_eq s (some r)
    dsimp only
    rw [hqueue]
  | message now m =>
    obtain ⟨added, hqueue, -⟩ := enqueue_eq (s.announce cfg) (msgcb api now (s.announce cfg).messages m).record
    dsimp only
    rw [Recorder.handle, hqueue]
    exact hsame.taken ▸ List.prefix_refl _
  | announce => exact hsame.taken ▸ List.prefix_refl _
  | round now =>
    obtain ⟨_, hbefore⟩ := h.ran
    dsimp only
    rw [Recorder.round]
    split
    · exact (MetaIo.step_inOrder hbefore.order hbefore.active _).2.1 ▸ List.prefix_append _ _
    · exact (MetaIo.step_inOrder hbefore.order hbefore.active _).2.1 ▸ List.prefix_append _ _
  | stop =>
    have hkept := (@MetaIo.step_inOrder cfg _ hran.order hran.active .stop).2.1
    rw [hsame.taken] at hkept
    exact hkept ▸ List.prefix_append _ _

theorem after_taken_mono (cfg : Config) (api : MetaApi) (rm : BitVec 32) (es more : List RecorderStep) :
    (after cfg api rm es).io.taken <+: (after cfg api rm (es ++ more)).io.taken := by
  induction more using List.reverseRecOn with
  | nil => rw [List.append_nil]
  | append_singleton more e ih =>
    rw [← List.append_assoc, after_append]
    refine ih.trans ?_
    obtain ⟨t, hrecording, hend⟩ := (recording_start cfg api rm).run (es ++ more)
    change after cfg api rm (es ++ more) = t ∨ after cfg api rm (es ++ more) = t.finish cfg at hend
    cases hend with
    | inl hend =>
      rw [hend]
      exact hrecording.taken_prefix e
    | inr hend =>
      have hstopped : (t.finish cfg).step cfg api e = t.finish cfg := if_neg Bool.false_ne_true
      rw [hend, hstopped]

/-- An interface whose messages all have version one. -/
def sampleApi : MetaApi where
  timeInfoMsgVersion := 1
  locomotiveIdMsgVersion := 1
  videoEventInfoMsgVersion := 1
  gpsDataMsgVersion := 1
  digitalInputsMsgVersion := 1
  shutdownMsgVersion := 1
  readyStatusMsgVersion := 1
  numDigitalInputs := 3
  timeSourceNameLen := 8
  maxLocoIdSize := 10
  digitalNameSize := 16
  getGpsDirection _ := 'N'
  parseGpsLatitude _ := 1
  parseGpsLongitude _ := 1
  parseGpsSpeed _ := 0
  metaGpsMemory _ _ _ := ⟨List.replicate 12 0, by decide⟩
  metaTimeMemory _ _ _ := ⟨List.replicate 20 0, by decide⟩
  metaEventRecording _ _ := ⟨List.replicate 20 0, by decide⟩
  metaLocoId _ := ⟨List.replicate 11 0, by decide⟩

/-- The message which takes the command away from the first drive. -/
def sampleShutdown : RecorderStep := .message ⟨1, ⟨1, 0⟩⟩ ⟨true, 1, .shutdown .chm⟩

/-- The command is followed when it differs from that of the record before, so one which has changed before the first
record is not. -/
example : ((after MetaIo.sampleConfig sampleApi 3 [sampleShutdown, .startUp (MetaIo.sampleRecord 0), .round ⟨1, 0⟩,
    .startUp (MetaIo.sampleRecord 1), .round ⟨2, 0⟩, .stop]).io.renamed .chm).map (fun c => c.records.map Prod.fst) =
      [[0, 1]] := by
  decide +kernel

end Recorder

end RecordingAgent.Metarec
