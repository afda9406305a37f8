import RecordingAgent.Metarec.Rotation

/-!
# A chunk from its first record to its file

The record that starts a chunk is followed by records of the same hour with the same command, and by
idle polls before the time of the chunk is over. `Gathering` is what the rounds of such events keep:
the index has the records that were dequeued since. The round that ends the chunk, whatever ends it,
leaves the finished file on each drive in use.
-/

namespace RecordingAgent.Metarec

open Foundation FileStore

/-- The record that is dequeued. -/
def Event.record? : Event → Option Record
  | .record _ r => some r
  | _ => none

/-- The records that are dequeued, in order. -/
def dequeued (es : List Event) : List Record := es.filterMap Event.record?

/-- The times are in one hour of the wall clock. -/
def SameHour (tm tm' : Tm) : Prop :=
  tm.tmHour = tm'.tmHour ∧ tm.tmMday = tm'.tmMday ∧ tm.tmMon = tm'.tmMon ∧ tm.tmYear = tm'.tmYear

instance (tm tm' : Tm) : Decidable (SameHour tm tm') := inferInstanceAs (Decidable (_ ∧ _))

/-- A further event of the chunk that `first` started under the command `rm`: a record without a change
of the drives in the same hour, or an idle poll which does not time out. -/
def Continues (cfg : Config) (rm : Drive → Bool) (first : Record) : Event → Prop
  | .record rm' r => rm' = rm ∧ SameHour (gmtime first.tod) (gmtime r.tod)
  | .idle now => now.nanoseconds < (first.ts.nanoseconds + cfg.chunkMaxDuration * 10 ^ 9) % 2 ^ 64
  | .forwardTimeChange => False
  | .stop => False

instance (cfg : Config) (rm : Drive → Bool) (first : Record) (e : Event) :
    Decidable (Continues cfg rm first e) := by
  apply Event.casesOn (motive := fun e => Decidable (Continues cfg rm first e)) e <;> intros <;> unfold Continues <;>
    infer_instance

namespace MetaIo

variable {cfg : Config} {s t : MetaIo} {d : Drive} {r first : Record} {rm : Drive → Bool} {rs : List Record}
  {e : Event} {duration : ℕ}

/-- The duration with which the round for an event closes the chunk, if it does. -/
def closingDuration (cfg : Config) (s : MetaIo) : Event → Option ℕ
  | .record rm r =>
    if s.isDriveStatusUpdated rm = true then some s.chunkDurationUsecs
    else if s.startsChunk cfg rm r = true then some (durationUsecs s.t0 r.ts.nanoseconds) else none
  | .idle now => if s.timesOut cfg now = true then some (durationUsecs s.t0 now.nanoseconds) else none
  | .forwardTimeChange => none
  | .stop => some s.chunkDurationUsecs

/-- The chunk as it is closed with this duration. -/
abbrev closedAs (s : MetaIo) (duration : ℕ) : ClosedChunk := ⟨s.subpath, s.chunkFname, duration, s.indexed⟩

/-- The thread records under the command `rm` in a chunk that `first` started. -/
structure Steady (s : MetaIo) (rm : Drive → Bool) (first : Record) : Prop where
  isActive : s.isActive = true
  sessionJustStarted : s.sessionJustStarted = false
  forwardTimeChangeOccurred : s.forwardTimeChangeOccurred = false
  preRec : s.preRec = fun d => some (rm d)
  hour : SameHour s.prevTm (gmtime first.tod)
  t0 : (∃ d, s.isUsed d = true) → s.t0 = first.ts.nanoseconds

/-- The chunk that `first` started has these records. -/
structure Gathering (cfg : Config) (s : MetaIo) (rm : Drive → Bool) (first : Record) (rs : List Record) :
    Prop where
  coherent : s.Coherent cfg
  steady : s.Steady rm first
  records : s.indexedRecords = rs

/-- A new name goes with the path of its hour. -/
theorem nameChunk_hour (s : MetaIo) (tm : Tm) : SameHour (s.nameChunk tm).prevTm tm := by
  simp only [nameChunk]
  split
  · obtain ⟨subpath, ops, h⟩ := prepareSubpath_eq { s with
        recordIndex := []
        indexed := []
        chunkDurationUsecs := 0
        chunkFname := chunkFnameOf tm
        prevTm := tm }
    rw [h]
    exact ⟨rfl, rfl, rfl, rfl⟩
  · rename_i hsame
    simp only [isNewPathRequired, Bool.or_eq_true, bne_iff_ne, ne_eq, not_or, not_not] at hsame
    exact ⟨hsame.1.1.1.2, hsame.1.1.2, hsame.1.2, hsame.2⟩

/-- Opening the copies of a chunk sets its start, if a drive is in use. -/
theorem openAll_t0 (cfg : Config) (r : Record) (hused : ∃ d, s.isUsed d = true) :
    (Drive.all.foldl (openCopy cfg r) s).t0 = r.ts.nanoseconds := by
  have hbook := openCopy_book cfg r s .chm
  have hkept : ∀ (u : MetaIo) (e : Drive), u.isUsed e = true → (u.openCopy cfg r e).t0 = r.ts.nanoseconds := by
    intro u e he
    rw [openCopy, if_pos he]
  change ((s.openCopy cfg r .chm).openCopy cfg r .rssd).t0 = _
  cases hrssd : s.isUsed .rssd with
  | true => exact hkept _ .rssd (by rw [hbook.isUsed]; exact hrssd)
  | false =>
    have hchm : s.isUsed .chm = true := by
      obtain ⟨d, hd⟩ := hused
      cases d with
      | chm => exact hd
      | rssd => rw [hrssd] at hd; cases hd
    have hsame : (s.openCopy cfg r .chm).openCopy cfg r .rssd = s.openCopy cfg r .chm := by
      conv_lhs => rw [openCopy, if_neg (by rw [hbook.isUsed, hrssd]; decide)]
    rw [hsame]
    exact hkept s .chm hchm

/-- A new chunk is of the hour of its first record and starts at its time. -/
theorem startChunk_book (cfg : Config) (s : MetaIo) (r : Record) :
    SameHour (s.startChunk cfg r).prevTm (gmtime r.tod) ∧
      (s.startChunk cfg r).forwardTimeChangeOccurred = s.forwardTimeChangeOccurred ∧
      ((∃ d, s.isUsed d = true) → (s.startChunk cfg r).t0 = r.ts.nanoseconds) := by
  let s₀ : MetaIo := { s with sessionJustStarted := false, driveStatusUpdated := false }
  let s₁ := Drive.all.foldl (closePrevious cfg) s₀
  obtain ⟨hbook₁, -, -⟩ : SameBook s₀ s₁ ∧ s₁.fp = s₀.fp ∧ s₁.out = s₀.out := closeAll_book cfg s₀
  have hnamed := nameChunk_named s₁ (gmtime r.tod)
  have hbook := openAll_book cfg r (s₁.nameChunk (gmtime r.tod))
  refine ⟨?_, ?_, fun hused => openAll_t0 cfg r ?_⟩
  · change SameHour (Drive.all.foldl (openCopy cfg r) (s₁.nameChunk (gmtime r.tod))).prevTm _
    rw [hbook.prevTm]
    exact nameChunk_hour s₁ (gmtime r.tod)
  · exact hbook.forwardTimeChangeOccurred.trans
      (hnamed.forwardTimeChangeOccurred.trans hbook₁.forwardTimeChangeOccurred)
  · rw [hnamed.isUsed, hbook₁.isUsed]
    exact hused

/-- Entering and writing a record in a chunk that is ready for it. -/
theorem Ready.gathering (h : s.Ready cfg) (hsteady : s.Steady rm first) (hn : cfg.nCopies = 2) (r : Record) :
    ((s.enterRecord cfg r).writeRecord cfg r).Gathering cfg rm first (s.indexedRecords ++ [r]) := by
  have hcoherent := h.record hn r
  obtain ⟨fs, pos, hwritten⟩ := writeRecord_eq cfg (s.enterRecord cfg r) r
  rw [hwritten, enterRecord_of_room (h.counted ▸ h.room)] at hcoherent ⊢
  refine ⟨hcoherent, ⟨hsteady.isActive, hsteady.sessionJustStarted, hsteady.forwardTimeChangeOccurred,
    hsteady.preRec, hsteady.hour, hsteady.t0⟩, ?_⟩
  simp [indexedRecords]

theorem step_record (h : s.isActive = true) : s.step cfg (.record rm r) = s.recordRound cfg rm r := if_pos h

/-- The record that starts a chunk. -/
theorem Coherent.gathering (h : s.Coherent cfg) (hn : cfg.nCopies = 2) (hdeltat : cfg.deltat ≠ 0)
    (hactive : s.isActive = true) (hkeeps : s.KeepsPointers (.record rm first))
    (hstarts : s.startsChunk cfg rm first = true) :
    (s.recordRound cfg rm first).Gathering cfg rm first [first] := by
  obtain ⟨-, -, hactive'⟩ := followDrives_book cfg s rm first
  have hrequired := (isNewChunkRequired_followDrives cfg s rm first).trans hstarts
  have hfollowed : (s.followDrives cfg rm first).Followed cfg := h.followDrives hkeeps
  have hpre : (s.followDrives cfg rm first).preRec = fun d => some (rm d) := by
    unfold MetaIo.followDrives
    dsimp only
    split
    · exact (metadataChunkFinalize_finalized cfg _).preRec
    · rfl
  unfold MetaIo.recordRound
  obtain ⟨u, hu⟩ : ∃ u, u = s.followDrives cfg rm first := ⟨_, rfl⟩
  rw [← hu] at hactive' hrequired hfollowed hpre ⊢
  have hready := hfollowed.ensureChunk hdeltat first
  obtain ⟨duration, hreach⟩ : ∃ duration, u.reachRecord first =
      { u with chunkDurationUsecs := duration, forwardTimeChangeOccurred := false } := ⟨_, rfl⟩
  rw [ensureChunk_of_required hdeltat hrequired, hreach] at hready ⊢
  let u' : MetaIo := { u with chunkDurationUsecs := duration, forwardTimeChangeOccurred := false }
  have horderly : u'.Orderly fun _ => True :=
    hfollowed.orderly.of_eq rfl rfl
  have hstarted : Started cfg u' (u'.startChunk cfg first) := startChunk_started horderly cfg first
  obtain ⟨hhour, htime, ht0⟩ := startChunk_book cfg u' first
  obtain ⟨v, hv⟩ : ∃ v, v = u'.startChunk cfg first := ⟨_, rfl⟩
  rw [← hv] at hstarted hhour htime ht0
  simp only [u'] at hv
  rw [← hv] at hready ⊢
  have hsteady : v.Steady rm first :=
    ⟨hstarted.isActive.trans (hactive'.trans hactive), hstarted.sessionJustStarted, htime,
      hstarted.preRec.trans hpre, hhour, fun hused => ht0 (hstarted.isUsed ▸ hused)⟩
  have hempty : v.indexedRecords = [] := congrArg (List.map Prod.snd) hstarted.indexed
  -- The position is set only if the chunk has a copy; it is not part of what is kept.
  by_cases hany : Drive.all.any u.isUsed = true
  · rw [if_pos hany] at hready ⊢
    have hsteady' : Steady { v with pos := cfg.format.bodyOffset } rm first :=
      ⟨hsteady.isActive, hsteady.sessionJustStarted, hsteady.forwardTimeChangeOccurred, hsteady.preRec,
        hsteady.hour, hsteady.t0⟩
    have hgathering := hready.gathering hsteady' hn first
    rw [show MetaIo.indexedRecords { v with pos := cfg.format.bodyOffset } = [] from hempty] at hgathering
    exact hgathering
  · rw [if_neg hany] at hready ⊢
    have hgathering := hready.gathering hsteady hn first
    rw [hempty] at hgathering
    exact hgathering

/-- A chunk that gathers records is live. -/
theorem Gathering.live (h : s.Gathering cfg rm first rs) : s.Live cfg rs := by
  refine h.records ▸ h.coherent.phase.resolve_right fun hwaiting => ?_
  have hstarted := hwaiting.sessionJustStarted.symm.trans h.steady.sessionJustStarted
  cases hstarted

/-- The drives do not change under the same command. -/
theorem Steady.isDriveStatusUpdated (h : s.Steady rm first) : s.isDriveStatusUpdated rm = false := by
  rw [MetaIo.isDriveStatusUpdated, h.preRec]
  simp

/-- A record of the hour needs no new chunk while there is room for it. -/
theorem Gathering.startsChunk (h : s.Gathering cfg rm first rs) (hhour : SameHour (gmtime first.tod) (gmtime r.tod))
    (hroom : rs.length < min cfg.format.indexCapacity cfg.chunkMaxDuration) : s.startsChunk cfg rm r = false := by
  have hlength : s.recordIndex.length = rs.length := by
    rw [h.coherent.counted, ← h.records, indexedRecords, List.length_map]
  obtain ⟨hcapacity, hduration⟩ := Nat.lt_min.mp hroom
  have hpath : s.isNewPathRequired (gmtime r.tod) = false := by
    obtain ⟨hprev₁, hprev₂, hprev₃, hprev₄⟩ := h.steady.hour
    obtain ⟨htm₁, htm₂, htm₃, htm₄⟩ := hhour
    rw [isNewPathRequired, h.steady.sessionJustStarted, hprev₁.trans htm₁, hprev₂.trans htm₂, hprev₃.trans htm₃,
      hprev₄.trans htm₄]
    simp
  rw [MetaIo.startsChunk, h.steady.isDriveStatusUpdated, hpath, h.steady.forwardTimeChangeOccurred,
    isMetaRecordReachMax, hlength]
  simp [hcapacity, hduration]

/-- A further record of the hour joins the chunk. -/
theorem Gathering.record (h : s.Gathering cfg rm first rs) (hn : cfg.nCopies = 2) (hdeltat : cfg.deltat ≠ 0)
    (hhour : SameHour (gmtime first.tod) (gmtime r.tod))
    (hroom : rs.length < min cfg.format.indexCapacity cfg.chunkMaxDuration) :
    (s.recordRound cfg rm r).Gathering cfg rm first (rs ++ [r]) := by
  have hupdated := h.steady.isDriveStatusUpdated
  have hfollowed : (s.followDrives cfg rm r).Followed cfg :=
    h.coherent.followDrives fun hchanged => absurd (hupdated.symm.trans hchanged) (by decide)
  have hrequired := (isNewChunkRequired_followDrives cfg s rm r).trans (h.startsChunk hhour hroom)
  have hready := hfollowed.ensureChunk hdeltat r
  obtain ⟨duration, hreach⟩ : ∃ duration, (s.followDrives cfg rm r).reachRecord r =
      { s.followDrives cfg rm r with chunkDurationUsecs := duration, forwardTimeChangeOccurred := false } :=
    ⟨_, rfl⟩
  have hsteady : Steady { s with
      preRec := fun d => some (rm d)
      driveStatusUpdated := false
      taken := s.taken ++ [(rm, r)]
      chunkDurationUsecs := duration
      forwardTimeChangeOccurred := false } rm first :=
    ⟨h.steady.isActive, h.steady.sessionJustStarted, rfl, rfl, h.steady.hour, h.steady.t0⟩
  unfold MetaIo.recordRound
  rw [ensureChunk_of_not_required hdeltat hrequired, hreach,
    followDrives_of_not_updated cfg hupdated] at hready ⊢
  have hgathering := hready.gathering hsteady hn r
  rw [← h.records]
  exact hgathering

/-- An idle poll before the time of the chunk is over leaves it as it is. -/
theorem Gathering.idle (h : s.Gathering cfg rm first rs) {now : Timespec}
    (hnow : now.nanoseconds < (first.ts.nanoseconds + cfg.chunkMaxDuration * 10 ^ 9) % 2 ^ 64) :
    (s.idleRound cfg now).Gathering cfg rm first rs := by
  have hcoherent := h.coherent.idleRound now
  unfold MetaIo.idleRound at hcoherent ⊢
  cases hout : s.firstOut with
  | none => exact h
  | some f =>
    obtain ⟨d, hd, -⟩ := firstOut_of_used h.coherent.pointers h.live.copies hout
    have htimeout : s.timesOut cfg now = false := by
      rw [timesOut, h.steady.t0 ⟨d, hd⟩, decide_eq_false (Nat.not_le.mpr hnow), Bool.and_false]
    obtain ⟨duration, hduration⟩ : ∃ duration, durationUsecs s.t0 now.nanoseconds = duration := ⟨_, rfl⟩
    rw [htimeout, hduration] at hcoherent ⊢
    rw [hout] at hcoherent
    exact ⟨hcoherent, ⟨h.steady.isActive, h.steady.sessionJustStarted, h.steady.forwardTimeChangeOccurred,
      h.steady.preRec, h.steady.hour, h.steady.t0⟩, h.records⟩

/-- Each event that continues the chunk adds the record that it dequeues. -/
theorem Gathering.step (h : s.Gathering cfg rm first rs) (hn : cfg.nCopies = 2) (hdeltat : cfg.deltat ≠ 0)
    (he : Continues cfg rm first e)
    (hroom : (rs ++ dequeued [e]).length ≤ min cfg.format.indexCapacity cfg.chunkMaxDuration) :
    (s.step cfg e).Gathering cfg rm first (rs ++ dequeued [e]) := by
  unfold MetaIo.step
  rw [if_pos h.steady.isActive]
  cases e with
  | record rm' r =>
    obtain ⟨rfl, hhour⟩ := he
    have hlength : (rs ++ dequeued [.record rm' r]).length = rs.length + 1 := by simp [dequeued, Event.record?]
    rw [hlength] at hroom
    exact h.record hn hdeltat hhour hroom
  | idle now =>
    have hnone : rs ++ dequeued [.idle now] = rs := by simp [dequeued, Event.record?]
    rw [hnone]
    exact h.idle he
  | forwardTimeChange => cases he
  | stop => cases he

/-- In a run of events that continue the chunk it gathers the records that are dequeued. -/
theorem Gathering.run (hn : cfg.nCopies = 2) (hdeltat : cfg.deltat ≠ 0) {es : List Event}
    (h : s.Gathering cfg rm first rs) (hes : ∀ e ∈ es, Continues cfg rm first e)
    (hroom : (rs ++ dequeued es).length ≤ min cfg.format.indexCapacity cfg.chunkMaxDuration) :
    (run (MetaIo.step cfg) s es).Gathering cfg rm first (rs ++ dequeued es) := by
  induction es generalizing s rs with
  | nil =>
    rw [dequeued, List.filterMap_nil, List.append_nil]
    exact h
  | cons e es ih =>
    have hsplit : rs ++ dequeued (e :: es) = (rs ++ dequeued [e]) ++ dequeued es := by
      rw [List.append_assoc, dequeued, dequeued, dequeued, ← List.filterMap_append, List.singleton_append]
    rw [hsplit] at hroom ⊢
    have hfirst : (rs ++ dequeued [e]).length ≤ min cfg.format.indexCapacity cfg.chunkMaxDuration := by
      rw [List.length_append] at hroom
      exact (Nat.le_add_right _ _).trans hroom
    exact ih (h.step hn hdeltat (hes e List.mem_cons_self) hfirst)
      (fun e' he' => hes e' (List.mem_cons_of_mem _ he')) hroom

/-- Closing the previous copy of a drive touches only paths of that drive. -/
theorem closePrevious_confined {D : Drive → Prop} (h : s.Orderly D) (hd : D d) (cfg : Config) :
    Confined {q | q.drive = d} s.fs (s.closePrevious cfg d).fs := by
  unfold closePrevious
  cases hfp : s.fp d with
  | none => exact .refl h.wellFormed _
  | some f =>
    dsimp only
    split
    · obtain ⟨name, bytes, pos, hat⟩ := h.streams d f hd hfp
      exact closeChunk_confined h.wellFormed hat
    · exact .refl h.wellFormed _

/-- Closing the previous copy of a drive in use leaves the finished file. -/
theorem closePrevious_files (hwf : s.fs.WellFormed) (hcopy : s.HasCopy cfg d rs) (hused : s.isUsed d = true)
    (hindex : s.recordIndex = cfg.format.indexOf rs) (hroom : rs.length ≤ cfg.format.indexCapacity) :
    ∃ sec usec, (s.closePrevious cfg d).fs.Stored (s.closing.path d) (cfg.format.finalImage sec usec rs) := by
  obtain ⟨f, sec, usec, hf, -, hat⟩ := hcopy
  have hclose : s.closePrevious cfg d = s.closeChunk cfg d f := by
    simp only [closePrevious, hf, hused, if_true]
  obtain ⟨hstored, -, -⟩ := @closeChunk_stored cfg d f _ _ s hwf hat
  rw [hindex, finalizedBytes_openImage hroom] at hstored
  rw [hclose]
  exact ⟨sec, usec, hstored⟩

/-- Closing the previous copies leaves the finished file on each drive in use. -/
theorem closeAll_files (horderly : s.Orderly fun _ => True)
    (hcopies : ∀ d, s.isUsed d = true → s.HasCopy cfg d rs) (hindex : s.recordIndex = cfg.format.indexOf rs)
    (hroom : rs.length ≤ cfg.format.indexCapacity) (hd : s.isUsed d = true) :
    ∃ sec usec, (Drive.all.foldl (closePrevious cfg) s).fs.Stored (s.closing.path d)
      (cfg.format.finalImage sec usec rs) := by
  obtain ⟨hbook, hfp, hout⟩ := closePrevious_book cfg s .chm
  have hchm := closePrevious_confined (d := .chm) horderly trivial cfg
  have horderly' := horderly.closePrevious (d := .chm) cfg trivial
  have hrssd := closePrevious_confined (d := .rssd) horderly' ⟨trivial, nofun⟩ cfg
  change ∃ sec usec, ((s.closePrevious cfg .chm).closePrevious cfg .rssd).fs.Stored _ _
  cases d with
  | chm =>
    obtain ⟨sec, usec, hstored⟩ := closePrevious_files horderly.wellFormed (hcopies .chm hd) hd hindex hroom
    exact ⟨sec, usec, hrssd.stored _ _ (by simp [ClosedChunk.path]) hstored⟩
  | rssd =>
    have hcopy : (s.closePrevious cfg .chm).HasCopy cfg .rssd rs :=
      (hcopies .rssd hd).confined hchm (by simp) (congrFun hfp _) (congrFun hout _) hbook.chunkFname
    obtain ⟨sec, usec, hstored⟩ := closePrevious_files horderly'.wellFormed hcopy
      ((congrFun hbook.isUsed _).trans hd) (hbook.recordIndex.trans hindex) hroom
    have hclosing : (s.closePrevious cfg .chm).closing = s.closing := by
      rw [closing, hbook.subpath, hbook.chunkFname, hbook.chunkDurationUsecs, hbook.indexed]
    rw [hclosing] at hstored
    exact ⟨sec, usec, hstored⟩

/-- Closing the previous copies keeps what is stored on a drive that has none. -/
theorem closeAll_kept (horderly : s.Orderly fun _ => True) (cfg : Config) (hd : s.fp d = none) {p : Path}
    {bytes : List UInt8} (hp : p.drive = d) (hstored : s.fs.Stored p bytes) :
    (Drive.all.foldl (closePrevious cfg) s).fs.Stored p bytes := by
  obtain ⟨-, hfp, -⟩ := closePrevious_book cfg s .chm
  have hnothing : ∀ u : MetaIo, u.fp d = none → u.closePrevious cfg d = u := by
    intro u hu
    unfold closePrevious
    rw [hu]
  have hchm := closePrevious_confined (d := .chm) horderly trivial cfg
  have horderly' := horderly.closePrevious (d := .chm) cfg trivial
  have hrssd := closePrevious_confined (d := .rssd) horderly' ⟨trivial, nofun⟩ cfg
  change ((s.closePrevious cfg .chm).closePrevious cfg .rssd).fs.Stored p bytes
  cases d with
  | chm =>
    refine hrssd.stored p bytes (by simp [hp]) ?_
    rw [hnothing s hd]
    exact hstored
  | rssd =>
    rw [hnothing _ ((congrFun hfp _).trans hd)]
    exact hchm.stored p bytes (by simp [hp]) hstored

/-- Finalising a chunk with a duration leaves the finished file on each drive in use, and forgets its copy. -/
theorem metadataChunkFinalize_files (horderly : s.Orderly fun _ => True) (hlive : s.Live cfg rs)
    (hroom : rs.length ≤ cfg.format.indexCapacity) (hduration : 0 < s.chunkDurationUsecs)
    (hd : s.isUsed d = true) :
    (∃ sec usec, (s.metadataChunkFinalize cfg).fs.Stored (s.closing.path d) (cfg.format.finalImage sec usec rs)) ∧
      (s.metadataChunkFinalize cfg).fp d = none := by
  rw [metadataChunkFinalize_eq cfg fun _ _ => hduration]
  refine ⟨closeAll_files horderly hlive.copies (hlive.recordIndex ⟨d, hd⟩) hroom hd, ?_⟩
  dsimp only
  rw [if_pos hd]

/-- The rest of the round for a record that starts a chunk keeps the files of the data directories. -/
theorem newChunk_kept (horderly : s.Orderly fun _ => True) (hn : cfg.nCopies = 2) (hdeltat : cfg.deltat ≠ 0)
    (hrequired : s.isNewChunkRequired cfg (gmtime r.tod) = true)
    (hduration : durationUsecs s.t0 r.ts.nanoseconds = duration) {p : Path} {bytes : List UInt8}
    (hp : p.area = .data) (hstored : (Drive.all.foldl (closePrevious cfg) { s with
      chunkDurationUsecs := duration
      forwardTimeChangeOccurred := false
      sessionJustStarted := false
      driveStatusUpdated := false }).fs.Stored p bytes) :
    (((s.ensureChunk cfg r).enterRecord cfg r).writeRecord cfg r).fs.Stored p bytes := by
  have hreach : s.reachRecord r =
      { s with chunkDurationUsecs := duration, forwardTimeChangeOccurred := false } := by
    rw [reachRecord, hduration]
  rw [ensureChunk_of_required hdeltat hrequired, hreach]
  let u : MetaIo := { s with chunkDurationUsecs := duration, forwardTimeChangeOccurred := false }
  have horderly' : u.Orderly fun _ => True := horderly.of_eq rfl rfl
  have hstarted : Started cfg u (u.startChunk cfg r) := startChunk_started horderly' cfg r
  have hkept := (startChunk_kept horderly' cfg r).1 p bytes hp hstored
  obtain ⟨v, hv⟩ : ∃ v, v = u.startChunk cfg r := ⟨_, rfl⟩
  rw [← hv] at hstarted hkept
  simp only [u] at hv
  rw [← hv]
  obtain ⟨pos, hpos⟩ : ∃ pos, (if Drive.all.any s.isUsed then { v with pos := cfg.format.bodyOffset } else v) =
      { v with pos } := by
    split
    · exact ⟨_, rfl⟩
    · exact ⟨v.pos, rfl⟩
  rw [hpos]
  have hfresh : ∀ d, v.isUsed d = true → v.HasCopy cfg d [] := fun d hd => hstarted.fresh d (hstarted.isUsed ▸ hd)
  obtain ⟨index, indexed, hentered⟩ : ∃ index indexed, MetaIo.enterRecord cfg { v with pos } r =
      { v with pos := pos, recordIndex := index, indexed := indexed } := by
    unfold enterRecord
    split
    · exact ⟨_, _, rfl⟩
    · exact ⟨v.recordIndex, v.indexed, rfl⟩
  rw [hentered]
  exact writeRecord_kept (s := { v with pos := pos, recordIndex := index, indexed := indexed }) hn
    (hstarted.orderly.of_eq rfl rfl) hfresh r hp hkept

/-- The records of a chunk that gathers fit the index. -/
theorem Gathering.room (h : s.Gathering cfg rm first rs) : rs.length ≤ cfg.format.indexCapacity := by
  rw [← h.records, indexedRecords, List.length_map]
  exact h.coherent.room

/-- A record which changes the commanded drives ends the chunk. -/
theorem Gathering.closes_of_updated (h : s.Gathering cfg rm first rs) (hn : cfg.nCopies = 2)
    (hdeltat : cfg.deltat ≠ 0) {rm' : Drive → Bool} (hupdated : s.isDriveStatusUpdated rm' = true)
    (hduration : 0 < s.chunkDurationUsecs) (hd : s.isUsed d = true) :
    ∃ sec usec, (s.recordRound cfg rm' r).fs.Stored (s.closing.path d) (cfg.format.finalImage sec usec rs) := by
  let s₀ : MetaIo := { s with
    preRec := fun d => some (rm' d)
    driveStatusUpdated := true
    taken := s.taken ++ [(rm', r)] }
  have horderly : s₀.Orderly fun _ => True :=
    h.coherent.orderly.of_eq rfl rfl
  have hlive : s₀.Live cfg rs := ⟨h.live.deltat, h.live.copies, h.live.recordIndex, h.live.pos⟩
  obtain ⟨⟨sec, usec, hstored⟩, hfp⟩ := metadataChunkFinalize_files (s := s₀) horderly hlive h.room hduration hd
  have horderly' := horderly.metadataChunkFinalize cfg
  have hrequired : (s.followDrives cfg rm' r).isNewChunkRequired cfg (gmtime r.tod) = true := by
    rw [isNewChunkRequired_followDrives, MetaIo.startsChunk, hupdated]
    rfl
  have hfollow : s.followDrives cfg rm' r = { s₀.metadataChunkFinalize cfg with isUsed := rm' } :=
    followDrives_of_updated cfg hupdated r
  unfold recordRound
  rw [hfollow] at hrequired ⊢
  obtain ⟨u, hu⟩ : ∃ u, u = s₀.metadataChunkFinalize cfg := ⟨_, rfl⟩
  rw [← hu] at hstored hfp horderly' hrequired ⊢
  obtain ⟨duration, hduration'⟩ : ∃ duration, durationUsecs u.t0 r.ts.nanoseconds = duration := ⟨_, rfl⟩
  let w : MetaIo := { u with
    isUsed := rm'
    chunkDurationUsecs := duration
    forwardTimeChangeOccurred := false
    sessionJustStarted := false
    driveStatusUpdated := false }
  have hw : w.Orderly fun _ => True := horderly'.of_eq rfl rfl
  have hkept := closeAll_kept hw cfg hfp rfl hstored
  have hchanged : Orderly { u with isUsed := rm' } fun _ => True :=
    horderly'.of_eq rfl rfl
  exact ⟨sec, usec, newChunk_kept hchanged hn hdeltat hrequired hduration' rfl hkept⟩

/-- A record which starts another chunk without a change of the drives ends the chunk. -/
theorem Gathering.closes_of_startsChunk (h : s.Gathering cfg rm first rs) (hn : cfg.nCopies = 2)
    (hdeltat : cfg.deltat ≠ 0) {rm' : Drive → Bool} (hupdated : s.isDriveStatusUpdated rm' = false)
    (hstarts : s.startsChunk cfg rm' r = true) (hduration : durationUsecs s.t0 r.ts.nanoseconds = duration)
    (hd : s.isUsed d = true) :
    ∃ sec usec, (s.recordRound cfg rm' r).fs.Stored
      ((s.closedAs duration).path d) (cfg.format.finalImage sec usec rs) := by
  have hrequired := (isNewChunkRequired_followDrives cfg s rm' r).trans hstarts
  unfold recordRound
  rw [followDrives_of_not_updated cfg hupdated] at hrequired ⊢
  let u : MetaIo := { s with
    preRec := fun d => some (rm' d)
    driveStatusUpdated := false
    taken := s.taken ++ [(rm', r)]
    chunkDurationUsecs := duration
    forwardTimeChangeOccurred := false
    sessionJustStarted := false }
  have horderly : u.Orderly fun _ => True :=
    h.coherent.orderly.of_eq rfl rfl
  obtain ⟨sec, usec, hstored⟩ :=
    closeAll_files (s := u) horderly h.live.copies (h.live.recordIndex ⟨d, hd⟩) h.room hd
  have horderly' : Orderly { s with
      preRec := fun d => some (rm' d)
      driveStatusUpdated := false
      taken := s.taken ++ [(rm', r)] } fun _ => True :=
    horderly.of_eq rfl rfl
  exact ⟨sec, usec, newChunk_kept horderly' hn hdeltat hrequired hduration rfl hstored⟩

/-- An idle poll which times out ends the chunk. -/
theorem Gathering.closes_of_timesOut (h : s.Gathering cfg rm first rs) {now : Timespec}
    (htimeout : s.timesOut cfg now = true) (hnow : durationUsecs s.t0 now.nanoseconds = duration)
    (hduration : 0 < duration) (hd : s.isUsed d = true) :
    ∃ sec usec, (s.idleRound cfg now).fs.Stored
      ((s.closedAs duration).path d) (cfg.format.finalImage sec usec rs) := by
  have hout : s.firstOut.isSome = true := by
    rw [timesOut, Bool.and_eq_true] at htimeout
    exact htimeout.1
  let u : MetaIo := { s with chunkDurationUsecs := duration }
  have horderly : u.Orderly fun _ => True :=
    h.coherent.orderly.of_eq rfl rfl
  have hlive : u.Live cfg rs := ⟨h.live.deltat, h.live.copies, h.live.recordIndex, h.live.pos⟩
  obtain ⟨hstored, -⟩ := metadataChunkFinalize_files (s := u) horderly hlive h.room hduration hd
  unfold idleRound
  rw [if_pos hout, hnow]
  dsimp only
  rw [if_pos htimeout]
  exact hstored

/-- The round that closes the chunk with a duration leaves its finished file on each drive in use. -/
theorem Gathering.closes (h : s.Gathering cfg rm first rs) (hn : cfg.nCopies = 2) (hdeltat : cfg.deltat ≠ 0)
    (hclose : s.closingDuration cfg e = some duration) (hduration : 0 < duration) (hd : s.isUsed d = true) :
    ∃ sec usec, (s.step cfg e).fs.Stored
      ((s.closedAs duration).path d) (cfg.format.finalImage sec usec rs) := by
  unfold closingDuration at hclose
  unfold MetaIo.step
  rw [if_pos h.steady.isActive]
  cases e with
  | record rm' r =>
    dsimp only at hclose
    split at hclose
    · rename_i hupdated
      obtain rfl := Option.some.inj hclose
      exact h.closes_of_updated hn hdeltat hupdated hduration hd
    · rename_i hupdated
      split at hclose
      · rename_i hstarts
        exact h.closes_of_startsChunk hn hdeltat (by simpa using hupdated) hstarts (Option.some.inj hclose) hd
      · cases hclose
  | idle now =>
    dsimp only at hclose
    split at hclose
    · rename_i htimeout
      exact h.closes_of_timesOut htimeout (Option.some.inj hclose) hduration hd
    · cases hclose
  | forwardTimeChange => cases hclose
  | stop =>
    obtain rfl := Option.some.inj hclose
    exact (metadataChunkFinalize_files h.coherent.orderly h.live h.room hduration hd).1

end MetaIo

end RecordingAgent.Metarec
