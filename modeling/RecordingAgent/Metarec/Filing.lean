import RecordingAgent.Metarec.ChunkName
import RecordingAgent.Metarec.Offsets

/-!
# Where chunks are filed

A chunk is renamed into the directory of the hour that the thread made last. That is the
directory of the chunk's own hour, and it exists on the drive, as long as each chunk finds the
directory of its hour on every drive in use. The thread makes it when the hour changes, on the
drives in use then; a drive that comes into use later in the hour has none.

The invariant `Filing` ties every file in a staging directory to a directory that was made.
-/

namespace RecordingAgent.Metarec

open Foundation FileStore

/-- Chunks of the same name are of the same hour. -/
theorem subpathOf_of_chunkFnameOf {tm tm' : Tm} (h : tm.InRange) (h' : tm'.InRange)
    (hname : chunkFnameOf tm = chunkFnameOf tm') : subpathOf tm = subpathOf tm' := by
  have htwo : ∀ m n : ℕ, m < 100 → n < 100 → (padded '0' 2 m).length = (padded '0' 2 n).length := by
    intro m n hm hn
    rw [padded_length (by decide) hm, padded_length (by decide) hn]
  have hmon := h.mon
  have hmon' := h'.mon
  have hmday := h.mday.2
  have hmday' := h'.mday.2
  have hhour := h.hour
  have hhour' := h'.hour
  rw [chunkFnameOf_eq, chunkFnameOf_eq] at hname
  obtain ⟨hdate, htime⟩ := List.append_inj' hname (by
    rw [List.length_cons, List.length_cons, timeDigits_length h, timeDigits_length h'])
  obtain ⟨hyears, hdays⟩ := List.append_inj' hdate (by
    rw [List.length_append, List.length_append, htwo (tm.tmMon + 1) (tm'.tmMon + 1) (by omega) (by omega),
      htwo tm.tmMday tm'.tmMday (by omega) (by omega)])
  obtain ⟨hmonths, hmdays⟩ := List.append_inj hdays (htwo _ _ (by omega) (by omega))
  obtain ⟨hhours, -⟩ := List.append_inj (List.cons.inj htime).2 (htwo _ _ (by omega) (by omega))
  rw [subpathOf, hyears, hmonths, hmdays, hhours, subpathOf]

/-- Every rename is into the directory of the hour in the chunk's name, which was made on that drive
before. -/
def FiledRight (ops : List FileOp) : Prop :=
  ∀ before d c after, ops = before ++ .rename d c :: after →
    ∃ t, c.fname = chunkFnameOf (gmtime t) ∧ c.subpath = subpathOf (gmtime t) ∧ .mkdirP d c.subpath ∈ before

theorem filedRight_nil : FiledRight [] := by
  intro before d c after h
  simp at h

/-- A log stays right with an operation that is no rename, or is a right one. -/
theorem FiledRight.append {ops : List FileOp} (h : FiledRight ops) {op : FileOp}
    (hop : ∀ d c, op = .rename d c →
      ∃ t, c.fname = chunkFnameOf (gmtime t) ∧ c.subpath = subpathOf (gmtime t) ∧ .mkdirP d c.subpath ∈ ops) :
    FiledRight (ops ++ [op]) := by
  intro before d c after heq
  induction after using List.reverseRecOn with
  | nil =>
    obtain ⟨rfl, hlast⟩ := List.append_inj' heq rfl
    exact hop d c (List.cons.inj hlast).1
  | append_singleton after last _ =>
    rw [← List.cons_append, ← List.append_assoc] at heq
    obtain ⟨rfl, -⟩ := List.append_inj' heq rfl
    exact h before d c after rfl

/-- The directory entries of a store after the announcing file came and went. -/
theorem generateFilesystemEvent_dir (fs : FileStore Path) (p : Path) :
    (generateFilesystemEvent fs p).dir = Function.update fs.dir p none := by
  unfold generateFilesystemEvent fopen
  split
  · rfl
  · exact Function.update_idem _ _ _

/-- Opening a path for writing makes no other path name a file. -/
theorem fopen_dir {fs : FileStore Path} {p q : Path} (h : (fs.fopen p).2.dir q ≠ none) : q = p ∨ fs.dir q ≠ none := by
  unfold fopen at h
  split at h
  · exact Or.inr h
  · by_cases hqp : q = p
    · exact Or.inl hqp
    · dsimp only at h
      rw [Function.update_of_ne hqp] at h
      exact Or.inr h

theorem finalizeHeader_dir (fmt : ChunkFormat) (index : List RcdIdx) (fs : FileStore Path) (f : ℕ) :
    (finalizeHeader fmt index fs f).dir = fs.dir := by
  unfold finalizeHeader
  split <;> rfl

namespace MetaIo

variable {cfg : Config} {s t : MetaIo} {d : Drive} {r : Record} {rm : Drive → Bool}

/-- The drive has a file of this name in its staging directory. -/
def Staged (s : MetaIo) (d : Drive) (name : CString) : Prop := s.fs.dir ⟨d, .staging, name⟩ ≠ none

instance (s : MetaIo) (d : Drive) (name : CString) : Decidable (s.Staged d name) :=
  inferInstanceAs (Decidable (_ ≠ _))

/-- The hour of the time is not that of the last path. -/
def hourElapsed (s : MetaIo) (tm : Tm) : Bool :=
  s.prevTm.tmHour != tm.tmHour || s.prevTm.tmMday != tm.tmMday || s.prevTm.tmMon != tm.tmMon ||
    s.prevTm.tmYear != tm.tmYear

/-- The drives in use after a record with this command was dequeued. -/
def usedNext (s : MetaIo) (rm : Drive → Bool) : Drive → Bool :=
  if s.isDriveStatusUpdated rm then rm else s.isUsed

/-- Whether the record will start a chunk. -/
def startsChunk (cfg : Config) (s : MetaIo) (rm : Drive → Bool) (r : Record) : Bool :=
  s.isDriveStatusUpdated rm || s.isNewPathRequired (gmtime r.tod) || s.isMetaRecordReachMax cfg ||
    s.forwardTimeChangeOccurred

/-- A chunk that starts within the hour of the last path finds the directory of that hour on every drive
in use. A chunk that starts with no drive in use, away from the hour of the path, has the name of no
file left in a staging directory. -/
def FindsDirectory (cfg : Config) (s : MetaIo) : Event → Prop
  | .record rm r => s.startsChunk cfg rm r = true →
      if ∃ d, s.usedNext rm d = true then
        s.hourElapsed (gmtime r.tod) = false → s.subpath = subpathOf (gmtime r.tod) ∧
          ∀ d, s.usedNext rm d = true → .mkdirP d (subpathOf (gmtime r.tod)) ∈ s.ops
      else s.subpath = subpathOf (gmtime r.tod) ∨ ∀ d, ¬ s.Staged d (chunkFnameOf (gmtime r.tod))
  | _ => True

instance (s : MetaIo) (e : Event) : Decidable (s.FindsDirectory cfg e) := by
  apply Event.casesOn (motive := fun e => Decidable (s.FindsDirectory cfg e)) e <;> intros <;> unfold FindsDirectory <;>
    infer_instance

/-- The log is right, every staged file is of an hour whose directory was made on its drive, and the
path is that of the chunk being recorded. -/
structure Filing (s : MetaIo) : Prop where
  log : FiledRight s.ops
  made : ∀ d name, s.Staged d name → ∃ t, name = chunkFnameOf (gmtime t) ∧ .mkdirP d (subpathOf (gmtime t)) ∈ s.ops
  path : ∀ d, s.Staged d s.chunkFname → ∃ t, s.chunkFname = chunkFnameOf (gmtime t) ∧ s.subpath = subpathOf (gmtime t)

theorem filing_start (used : Drive → Bool) : (start used).Filing where
  log := filedRight_nil
  made _ _ h := absurd rfl h
  path _ h := absurd rfl h

/-- What stays in order when only fields besides the files, their log and the names change. -/
theorem Filing.of_eq (h : s.Filing) (hops : t.ops = s.ops) (hfs : t.fs.dir = s.fs.dir)
    (hname : t.chunkFname = s.chunkFname) (hsubpath : t.subpath = s.subpath) : t.Filing where
  log := hops ▸ h.log
  made d name hstaged := by
    rw [hops]
    exact h.made d name (by rwa [Staged, hfs] at hstaged)
  path d hstaged := by
    rw [hname, hsubpath]
    exact h.path d (by rwa [Staged, hfs, hname] at hstaged)

/-- Closing a copy takes files out of the staging directories and logs the rename, if its source is
there. -/
theorem closeChunk_effect (cfg : Config) (s : MetaIo) (d : Drive) (f : ℕ) :
    (∀ e name, (s.closeChunk cfg d f).Staged e name → s.Staged e name) ∧
      ((s.closeChunk cfg d f).ops = s.ops ∨
        s.Staged d s.chunkFname ∧ (s.closeChunk cfg d f).ops = s.ops ++ [.rename d s.closing]) := by
  have hdir : (((finalizeHeader cfg.format s.recordIndex s.fs f).rewrite f cfg.format.updateHmac).fclose f).dir =
      s.fs.dir := finalizeHeader_dir cfg.format s.recordIndex s.fs f
  unfold closeChunk Staged
  simp only [generateFilesystemEvent_dir, FileStore.rename, hdir]
  cases hsource : s.fs.dir (s.stagingPath d) with
  | none =>
    refine ⟨fun e name hstaged => ?_, .inl rfl⟩
    intro hnone
    apply hstaged
    by_cases hevent : (⟨e, .staging, name⟩ : Path) = s.eventPath d
    · rw [hevent, Function.update_self]
    · rw [Function.update_of_ne hevent, hdir, hnone]
  | some i =>
    refine ⟨fun e name hstaged => ?_, .inr ⟨Option.some_ne_none _, rfl⟩⟩
    intro hnone
    apply hstaged
    have hdata : (⟨e, .staging, name⟩ : Path) ≠ s.closing.path d := by
      simp [ClosedChunk.path]
    dsimp only
    by_cases hevent : (⟨e, .staging, name⟩ : Path) = s.eventPath d
    · rw [hevent, Function.update_self]
    · rw [Function.update_of_ne hevent, Function.update_of_ne hdata]
      by_cases hsame : (⟨e, .staging, name⟩ : Path) = s.stagingPath d
      · rw [hsame, Function.update_self]
      · rw [Function.update_of_ne hsame, hnone]

/-- The log grew, staged files went, and the last path is the same. -/
structure Later (s t : MetaIo) : Prop where
  ops : ∀ op ∈ s.ops, op ∈ t.ops
  staged : ∀ d name, t.Staged d name → s.Staged d name
  prevTm : t.prevTm = s.prevTm
  subpath : t.subpath = s.subpath

theorem Later.of_eq (hops : t.ops = s.ops) (hfs : t.fs = s.fs) (hprevTm : t.prevTm = s.prevTm)
    (hsubpath : t.subpath = s.subpath) : Later s t :=
  ⟨fun op hop => by rwa [hops], fun d name h => by rwa [Staged, hfs] at h, hprevTm, hsubpath⟩

theorem Later.trans {u : MetaIo} (h : Later s t) (h' : Later t u) : Later s u where
  ops op hop := h'.ops op (h.ops op hop)
  staged d name hd := h.staged d name (h'.staged d name hd)
  prevTm := h'.prevTm.trans h.prevTm
  subpath := h'.subpath.trans h.subpath

/-- Closing a copy keeps the filing in order. -/
theorem Filing.closeChunk (h : s.Filing) (cfg : Config) (d : Drive) (f : ℕ) :
    (s.closeChunk cfg d f).Filing ∧ Later s (s.closeChunk cfg d f) := by
  obtain ⟨hstaged, hops⟩ := closeChunk_effect cfg s d f
  have hgrows : ∀ op ∈ s.ops, op ∈ (s.closeChunk cfg d f).ops := by
    intro op hop
    rcases hops with hops | ⟨-, hops⟩ <;> rw [hops]
    · exact hop
    · exact List.mem_append_left _ hop
  refine ⟨⟨?_, fun e name hmem => ?_, fun e hmem => h.path e (hstaged e _ hmem)⟩, hgrows, hstaged, rfl, rfl⟩
  · rcases hops with hops | ⟨hsource, hops⟩ <;> rw [hops]
    · exact h.log
    · refine h.log.append fun e c heq => ?_
      cases heq
      obtain ⟨t, hname, hsubpath⟩ := h.path d hsource
      obtain ⟨t', hname', hmade⟩ := h.made d _ hsource
      have hsame := subpathOf_of_chunkFnameOf (gmtime_inRange t) (gmtime_inRange t') (hname.symm.trans hname')
      refine ⟨t, hname, hsubpath, ?_⟩
      change FileOp.mkdirP d s.subpath ∈ s.ops
      rw [hsubpath, hsame]
      exact hmade
  · obtain ⟨t, hname, hmade⟩ := h.made e name (hstaged e name hmem)
    exact ⟨t, hname, hgrows _ hmade⟩

theorem Filing.closePrevious (h : s.Filing) (cfg : Config) (d : Drive) :
    (s.closePrevious cfg d).Filing ∧ Later s (s.closePrevious cfg d) := by
  unfold MetaIo.closePrevious
  split
  · split
    · exact h.closeChunk cfg d _
    · exact ⟨h, .of_eq rfl rfl rfl rfl⟩
  · exact ⟨h, .of_eq rfl rfl rfl rfl⟩

theorem Filing.finalizeCopy (h : s.Filing) (cfg : Config) (d : Drive) :
    (s.finalizeCopy cfg d).Filing ∧ Later s (s.finalizeCopy cfg d) := by
  unfold MetaIo.finalizeCopy
  split
  · split
    · obtain ⟨hfiling, hlater⟩ := h.closeChunk cfg d ‹ℕ›
      exact ⟨hfiling.of_eq rfl rfl rfl rfl, hlater.trans (.of_eq rfl rfl rfl rfl)⟩
    · exact ⟨h, .of_eq rfl rfl rfl rfl⟩
  · exact ⟨h, .of_eq rfl rfl rfl rfl⟩

theorem Filing.metadataChunkFinalize (h : s.Filing) (cfg : Config) :
    (s.metadataChunkFinalize cfg).Filing ∧ Later s (s.metadataChunkFinalize cfg) := by
  obtain ⟨hchm, hchm'⟩ := h.finalizeCopy cfg .chm
  obtain ⟨hrssd, hrssd'⟩ := hchm.finalizeCopy cfg .rssd
  exact ⟨hrssd.of_eq rfl rfl rfl rfl, (hchm'.trans hrssd').trans (.of_eq rfl rfl rfl rfl)⟩

/-- The chunk of this time is named, and every drive in use has the directory of its hour. -/
structure Prepared (s : MetaIo) (t : ℕ) : Prop extends Filing s where
  name : s.chunkFname = chunkFnameOf (gmtime t)
  used : ∀ d, s.isUsed d = true → s.subpath = subpathOf (gmtime t) ∧ .mkdirP d (subpathOf (gmtime t)) ∈ s.ops

/-- Opening a copy makes a staged file of an hour whose directory was made. -/
theorem Prepared.openCopy {t : ℕ} (h : s.Prepared t) (cfg : Config) (r : Record) (d : Drive) :
    (s.openCopy cfg r d).Prepared t := by
  unfold MetaIo.openCopy
  split
  · rename_i hused
    obtain ⟨hsubpath, hmade⟩ := h.used d hused
    refine ⟨⟨h.log, fun e name hstaged => ?_, fun e hstaged => ⟨t, h.name, hsubpath⟩⟩, h.name, h.used⟩
    rcases fopen_dir hstaged with heq | hold
    · obtain ⟨rfl, -, rfl⟩ := Path.mk.inj heq
      exact ⟨t, h.name, hmade⟩
    · exact h.made e name hold
  · exact h

/-- What making the directory of the hour does. -/
theorem prepareSubpath_effect (s : MetaIo) (hlog : FiledRight s.ops) :
    FiledRight s.prepareSubpath.ops ∧ (∀ op ∈ s.ops, op ∈ s.prepareSubpath.ops) ∧
      (∀ d, s.isUsed d = true → s.prepareSubpath.subpath = subpathOf s.prevTm ∧
        .mkdirP d (subpathOf s.prevTm) ∈ s.prepareSubpath.ops) ∧
      ((∀ d, s.isUsed d = false) → s.prepareSubpath.subpath = s.subpath) := by
  have hright : ∀ ops d sub, FiledRight ops → FiledRight (ops ++ [.mkdirP d sub]) := fun ops d sub h =>
    h.append nofun
  cases hchm : s.isUsed .chm <;> cases hrssd : s.isUsed .rssd <;>
    simp only [prepareSubpath, Drive.all, List.foldl_cons, List.foldl_nil, hchm, hrssd, if_true, if_false,
      Bool.false_eq_true]
  · refine ⟨hlog, fun _ h => h, fun d hd => ?_, fun _ => trivial⟩
    cases d <;> simp_all
  · refine ⟨hright _ _ _ hlog, fun _ h => List.mem_append_left _ h, fun d hd => ?_, fun h => ?_⟩
    · cases d <;> simp_all
    · exact absurd (h .rssd) (by simp [hrssd])
  · refine ⟨hright _ _ _ hlog, fun _ h => List.mem_append_left _ h, fun d hd => ?_, fun h => ?_⟩
    · cases d <;> simp_all
    · exact absurd (h .chm) (by simp [hchm])
  · refine ⟨hright _ _ _ (hright _ _ _ hlog), fun _ h => List.mem_append_left _ (List.mem_append_left _ h),
      fun d hd => ?_, fun h => ?_⟩
    · cases d <;> simp
    · exact absurd (h .chm) (by simp [hchm])

/-- What a chunk that starts at this time finds. -/
def Finds (s : MetaIo) (tm : Tm) : Prop :=
  if ∃ d, s.isUsed d = true then
    s.hourElapsed tm = false → s.subpath = subpathOf tm ∧ ∀ d, s.isUsed d = true → .mkdirP d (subpathOf tm) ∈ s.ops
  else s.subpath = subpathOf tm ∨ ∀ d, ¬ s.Staged d (chunkFnameOf tm)

/-- What is found stays to be found. -/
theorem Finds.later {tm : Tm} (h : s.Finds tm) (hlater : Later s t) (hused : t.isUsed = s.isUsed) : t.Finds tm := by
  have helapsed : t.hourElapsed tm = s.hourElapsed tm := by
    unfold hourElapsed
    rw [hlater.prevTm]
  unfold Finds at *
  rw [hused, helapsed, hlater.subpath]
  split
  · rename_i hsome
    rw [if_pos hsome] at h
    exact fun hhour => ⟨(h hhour).1, fun d hd => hlater.ops _ ((h hhour).2 d hd)⟩
  · rename_i hnone
    rw [if_neg hnone] at h
    exact h.imp_right fun hunstaged d hd => hunstaged d (hlater.staged d _ hd)

/-- Naming a chunk that finds its directory, or makes it. -/
theorem Filing.nameChunk (h : s.Filing) {t : ℕ} (hfinds : s.Finds (gmtime t)) (hstarted : s.sessionJustStarted = false) :
    (s.nameChunk (gmtime t)).Prepared t := by
  let s₀ : MetaIo := { s with
    recordIndex := []
    indexed := []
    chunkDurationUsecs := 0
    chunkFname := chunkFnameOf (gmtime t) }
  have hrequired : s₀.isNewPathRequired (gmtime t) = s.hourElapsed (gmtime t) := by
    change (s.sessionJustStarted || _ || _ || _ || _) = _
    rw [hstarted]
    rfl
  change (if s₀.isNewPathRequired (gmtime t) = true then prepareSubpath { s₀ with prevTm := gmtime t } else s₀).Prepared t
  rw [hrequired]
  unfold Finds at hfinds
  split
  · let u : MetaIo := { s₀ with prevTm := gmtime t }
    obtain ⟨hlog, hgrows, hused, hunused⟩ := prepareSubpath_effect u h.log
    obtain ⟨subpath, ops, heq⟩ := prepareSubpath_eq u
    change u.prepareSubpath.Prepared t
    rw [heq] at hlog hgrows hused hunused ⊢
    refine ⟨⟨hlog, fun d name hstaged => ?_, fun d hstaged => ⟨t, rfl, ?_⟩⟩, rfl, hused⟩
    · obtain ⟨t', hname, hmade⟩ := h.made d name hstaged
      exact ⟨t', hname, hgrows _ hmade⟩
    · by_cases hsome : ∃ e, s.isUsed e = true
      · obtain ⟨e, he⟩ := hsome
        exact (hused e he).1
      · rw [if_neg hsome] at hfinds
        rcases hfinds with hsubpath | hunstaged
        · exact (hunused fun e => Bool.eq_false_iff.mpr fun he => hsome ⟨e, he⟩).trans hsubpath
        · exact absurd hstaged (hunstaged d)
  · rename_i hsame
    rw [Bool.not_eq_true] at hsame
    refine ⟨⟨h.log, h.made, fun d hstaged => ⟨t, rfl, ?_⟩⟩, rfl, fun d hd => ?_⟩
    · by_cases hsome : ∃ e, s.isUsed e = true
      · rw [if_pos hsome] at hfinds
        exact (hfinds hsame).1
      · rw [if_neg hsome] at hfinds
        exact hfinds.resolve_right fun hunstaged => absurd hstaged (hunstaged d)
    · rw [if_pos ⟨d, hd⟩] at hfinds
      exact ⟨(hfinds hsame).1, (hfinds hsame).2 d hd⟩

/-- A chunk that finds its directory starts with its filing in order. -/
theorem Filing.startChunk (h : s.Filing) (cfg : Config) (hfinds : s.Finds (gmtime r.tod)) :
    (s.startChunk cfg r).Filing := by
  let s₀ : MetaIo := { s with sessionJustStarted := false, driveStatusUpdated := false }
  have h₀ : s₀.Filing := h.of_eq rfl rfl rfl rfl
  have hreset : Later s s₀ := .of_eq rfl rfl rfl rfl
  obtain ⟨hchm, hchm'⟩ := h₀.closePrevious cfg .chm
  obtain ⟨hrssd, hrssd'⟩ := hchm.closePrevious cfg .rssd
  have hbook : SameBook s₀ ((s₀.closePrevious cfg .chm).closePrevious cfg .rssd) := (closeAll_book cfg s₀).1
  have hlater : Later s ((s₀.closePrevious cfg .chm).closePrevious cfg .rssd) :=
    hreset.trans (hchm'.trans hrssd')
  have hprepared := hrssd.nameChunk (hfinds.later hlater hbook.isUsed) hbook.sessionJustStarted
  exact ((hprepared.openCopy cfg r .chm).openCopy cfg r .rssd).toFiling

/-- Following the commanded drives keeps the filing in order. -/
theorem Filing.followDrives (h : s.Filing) (cfg : Config) (rm : Drive → Bool) (r : Record) :
    (s.followDrives cfg rm r).Filing ∧ Later s (s.followDrives cfg rm r) ∧
      (s.followDrives cfg rm r).isUsed = s.usedNext rm := by
  let s₀ : MetaIo := { s with
    preRec := fun d => some (rm d)
    driveStatusUpdated := s.isDriveStatusUpdated rm
    taken := s.taken ++ [(rm, r)] }
  have h₀ : s₀.Filing := h.of_eq rfl rfl rfl rfl
  have hreset : Later s s₀ := .of_eq rfl rfl rfl rfl
  unfold usedNext
  change (if s.isDriveStatusUpdated rm = true then s₀.driveStatusUpdateHandler cfg rm else s₀).Filing ∧
    Later s (if s.isDriveStatusUpdated rm = true then s₀.driveStatusUpdateHandler cfg rm else s₀) ∧
    (if s.isDriveStatusUpdated rm = true then s₀.driveStatusUpdateHandler cfg rm else s₀).isUsed = _
  split
  · obtain ⟨hfinal, hlater⟩ := h₀.metadataChunkFinalize cfg
    have hhandled : Later (s₀.metadataChunkFinalize cfg) (s₀.driveStatusUpdateHandler cfg rm) :=
      .of_eq rfl rfl rfl rfl
    exact ⟨hfinal.of_eq rfl rfl rfl rfl, hreset.trans (hlater.trans hhandled), rfl⟩
  · exact ⟨h₀, hreset, rfl⟩

/-- A chunk is required for the record where it was going to start one. -/
theorem isNewChunkRequired_followDrives (cfg : Config) (s : MetaIo) (rm : Drive → Bool) (r : Record) :
    (s.followDrives cfg rm r).isNewChunkRequired cfg (gmtime r.tod) = s.startsChunk cfg rm r := by
  unfold startsChunk
  cases hupdated : s.isDriveStatusUpdated rm with
  | true =>
    have hfinal := metadataChunkFinalize_finalized cfg { s with
      preRec := fun d => some (rm d)
      driveStatusUpdated := true
      taken := s.taken ++ [(rm, r)] }
    have hdrives : (s.followDrives cfg rm r).driveStatusUpdated = true := by
      rw [followDrives_of_updated cfg hupdated]
      exact hfinal.driveStatusUpdated
    simp only [isNewChunkRequired, hdrives, Bool.or_true, Bool.true_or]
  | false =>
    rw [followDrives_of_not_updated cfg hupdated]
    simp only [isNewChunkRequired, Bool.or_false]
    rfl

/-- Entering and writing a record leaves the directories alone. -/
theorem Filing.writeRecord (h : s.Filing) (cfg : Config) (r : Record) :
    ((s.enterRecord cfg r).writeRecord cfg r).Filing := by
  have henter : (s.enterRecord cfg r).Filing := by
    unfold enterRecord
    split
    · exact h.of_eq rfl rfl rfl rfl
    · exact h
  have hcopy : ∀ t : MetaIo, t.Filing → ∀ d, (t.writeCopy r d).Filing := by
    intro t ht d
    unfold writeCopy
    split
    · split
      · exact ht.of_eq rfl rfl rfl rfl
      · exact ht
    · exact ht
  have hcopies : ((s.enterRecord cfg r).writeMetadata cfg r).Filing :=
    foldl_invariant henter fun t d _ ht => hcopy t ht d
  unfold MetaIo.writeRecord
  split
  · exact hcopies.of_eq rfl rfl rfl rfl
  · exact henter

/-- The round for a record whose chunk finds its directory keeps the filing in order. -/
theorem Filing.recordRound (h : s.Filing) (hfinds : s.FindsDirectory cfg (.record rm r)) :
    (s.recordRound cfg rm r).Filing := by
  obtain ⟨hfollowed, hlater, hused⟩ := h.followDrives cfg rm r
  have hchunk : ((s.followDrives cfg rm r).ensureChunk cfg r).Filing := by
    by_cases hdeltat : cfg.deltat = 0
    · rw [ensureChunk_of_deltat hdeltat]
      exact hfollowed
    · -- the duration is generalised: it plays no part here
      obtain ⟨duration, hreach⟩ : ∃ duration, (s.followDrives cfg rm r).reachRecord r =
          { s.followDrives cfg rm r with
            chunkDurationUsecs := duration
            forwardTimeChangeOccurred := false } := ⟨_, rfl⟩
      cases hrequired : (s.followDrives cfg rm r).isNewChunkRequired cfg (gmtime r.tod) with
      | true =>
        have hfound : ({ s with isUsed := s.usedNext rm } : MetaIo).Finds (gmtime r.tod) :=
          hfinds ((isNewChunkRequired_followDrives cfg s rm r).symm.trans hrequired)
        have hkept : Later { s with isUsed := s.usedNext rm } (s.followDrives cfg rm r) :=
          ⟨hlater.ops, hlater.staged, hlater.prevTm, hlater.subpath⟩
        let u : MetaIo := { s.followDrives cfg rm r with
          chunkDurationUsecs := duration
          forwardTimeChangeOccurred := false }
        have hreached : Later (s.followDrives cfg rm r) u := .of_eq rfl rfl rfl rfl
        have hu : u.Filing := hfollowed.of_eq rfl rfl rfl rfl
        have hstarted : (u.startChunk cfg r).Filing := hu.startChunk cfg (hfound.later (hkept.trans hreached) hused)
        rw [ensureChunk_of_required hdeltat hrequired, hreach]
        split
        · exact hstarted.of_eq rfl rfl rfl rfl
        · exact hstarted
      | false =>
        rw [ensureChunk_of_not_required hdeltat hrequired, hreach]
        exact hfollowed.of_eq rfl rfl rfl rfl
  exact hchunk.writeRecord cfg r

/-- An idle poll keeps the filing in order. -/
theorem Filing.idleRound (h : s.Filing) (cfg : Config) (now : Timespec) : (s.idleRound cfg now).Filing := by
  unfold MetaIo.idleRound
  split
  · obtain ⟨duration, hduration⟩ : ∃ duration, durationUsecs s.t0 now.nanoseconds = duration := ⟨_, rfl⟩
    rw [hduration]
    let u : MetaIo := { s with chunkDurationUsecs := duration }
    have hu : u.Filing := h.of_eq rfl rfl rfl rfl
    dsimp only
    split
    · exact (hu.metadataChunkFinalize cfg).1.of_eq rfl rfl rfl rfl
    · exact hu
  · exact h

theorem Filing.step (h : s.Filing) {e : Event} (hfinds : s.FindsDirectory cfg e) : (s.step cfg e).Filing := by
  unfold MetaIo.step
  split
  · cases e with
    | record rm r => exact h.recordRound hfinds
    | idle now => exact h.idleRound cfg now
    | forwardTimeChange => exact h.of_eq rfl rfl rfl rfl
    | stop => exact (h.metadataChunkFinalize cfg).1.of_eq rfl rfl rfl rfl
  · exact h

/-- In every run in which each chunk finds the directory of its hour, every chunk is filed in the
directory of its hour, which was made on the drive before. -/
theorem run_filedRight (cfg : Config) (used : Drive → Bool) (es : List Event)
    (hfinds : Guarded (step cfg) (FindsDirectory cfg) (start used) es) :
    FiledRight (run (step cfg) (start used) es).ops :=
  (run_invariant (I := Filing) (fun _ _ h hf => h.step hf) (filing_start used) hfinds).log

/-- Both drives are in use from the beginning of the hour, and one goes. -/
theorem run_filedRight_both :
    FiledRight (run (step sampleConfig) (start fun _ => true) [.record (fun _ => true) (sampleRecord 0),
      .record (fun d => d == .chm) (sampleRecord 1), .record (fun d => d == .chm) (sampleRecord 2), .stop]).ops :=
  run_filedRight sampleConfig _ _ (by decide +kernel)

/-- The removable drive comes into use within the hour; its chunk goes to a directory which was not made
there. -/
theorem run_not_filedRight :
    ¬ FiledRight (run (step sampleConfig) (start fun d => d == .chm) [.record (fun d => d == .chm) (sampleRecord 0),
      .record (fun _ => true) (sampleRecord 1), .record (fun _ => true) (sampleRecord 2), .stop]).ops := by
  intro h
  let c : ClosedChunk := ⟨subpathOf (gmtime 2), chunkFnameOf (gmtime 2), 1000000, [(1, sampleRecord 1), (2, sampleRecord 2)]⟩
  let ops := (run (step sampleConfig) (start fun d => d == .chm) [.record (fun d => d == .chm) (sampleRecord 0),
    .record (fun _ => true) (sampleRecord 1), .record (fun _ => true) (sampleRecord 2), .stop]).ops
  have hlast : ops = ops.take 3 ++ .rename .rssd c :: [] := by decide +kernel
  obtain ⟨-, -, -, hmade⟩ := h _ _ _ _ hlast
  exact absurd hmade (by decide +kernel)

end MetaIo

end RecordingAgent.Metarec
