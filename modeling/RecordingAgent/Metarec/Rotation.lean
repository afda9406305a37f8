import RecordingAgent.Metarec.Archive

/-!
# Rotation and the records

Every record that is dequeued while a drive is commanded ends up in exactly one file of that drive,
as long as no chunk is finalised with a duration of zero while a copy of it is open, each new name
is free, the commanded drives are in use and the thread keeps its pointers to drives in use. A
chunk with the duration zero is not closed, but its index is given up.

The ledger of a drive has the records of the files renamed on it and those of the chunk being
recorded there; closing a chunk leaves the ledger alone and recording a record adds it.
-/

namespace RecordingAgent.Metarec

open Foundation FileStore

namespace MetaIo

variable {cfg : Config} {s t : MetaIo} {d : Drive} {r : Record} {rm : Drive → Bool}

/-- The numbered records of a drive: those of its files and of the chunk being recorded on it. -/
def ledger (s : MetaIo) (d : Drive) : List (ℕ × Record) :=
  (s.renamed d).flatMap ClosedChunk.records ++ if s.isUsed d = true then s.indexed else []

/-- The new name of each open copy is free, if the chunk is closed with this duration. -/
def NamesFree (s : MetaIo) (duration : ℕ) : Prop :=
  ∀ d, s.Recording d → s.fs.dir (ClosedChunk.path ⟨s.subpath, s.chunkFname, duration, s.indexed⟩ d) = none

/-- The duration is not taken for that of no chunk if a copy is open, and the new name is free. -/
def CanFinalize (s : MetaIo) (duration : ℕ) : Prop :=
  (∀ d, s.Recording d → 0 < duration) ∧ s.NamesFree duration

instance (s : MetaIo) (duration : ℕ) : Decidable (s.NamesFree duration) := by
  unfold NamesFree; infer_instance

instance (s : MetaIo) (duration : ℕ) : Decidable (s.CanFinalize duration) :=
  inferInstanceAs (Decidable (_ ∧ _))

/-- The files that were renamed are there, each open copy is on a drive in use and has the records of
the index, and no record is in the index of a chunk that has no copy on a drive in use. -/
structure Stocked (cfg : Config) (s : MetaIo) : Prop where
  archived : s.Archived cfg
  opened : ∀ d, s.fp d ≠ none → s.isUsed d = true ∧ s.HasCopy cfg d s.indexedRecords ∧
    s.recordIndex = cfg.format.indexOf s.indexedRecords
  emptied : ∀ d, s.isUsed d = true → s.fp d = none → s.indexed = []

/-- The files, the log of operations and what is known of the copies are the same. -/
structure SameCopies (s t : MetaIo) : Prop where
  fs : t.fs = s.fs
  ops : t.ops = s.ops
  fp : t.fp = s.fp
  out : t.out = s.out
  isUsed : t.isUsed = s.isUsed
  chunkFname : t.chunkFname = s.chunkFname
  recordIndex : t.recordIndex = s.recordIndex
  indexed : t.indexed = s.indexed

theorem SameCopies.renamed (h : SameCopies s t) (d : Drive) : t.renamed d = s.renamed d := by
  rw [MetaIo.renamed, h.ops, MetaIo.renamed]

theorem SameCopies.ledger (h : SameCopies s t) (d : Drive) : t.ledger d = s.ledger d := by
  rw [MetaIo.ledger, h.renamed, h.isUsed, h.indexed, MetaIo.ledger]

theorem Stocked.of_same (h : s.Stocked cfg) (hsame : SameCopies s t) : t.Stocked cfg := by
  have hrecords : t.indexedRecords = s.indexedRecords := congrArg (List.map Prod.snd) hsame.indexed
  refine ⟨h.archived.of_stored (fun p bytes _ => ?_) hsame.renamed, fun d hd => ?_, fun d hd hfp => ?_⟩
  · rw [hsame.fs]
    exact id
  · rw [hsame.fp] at hd
    obtain ⟨hused, ⟨f, sec, usec, hf, hout, hat⟩, hindex⟩ := h.opened d hd
    rw [hsame.isUsed, hsame.recordIndex, hrecords]
    refine ⟨hused, ⟨f, sec, usec, ?_, ?_, ?_⟩, hindex⟩
    · rw [hsame.fp]
      exact hf
    · rw [hsame.out]
      exact hout
    · rw [hsame.fs, stagingPath, hsame.chunkFname]
      exact hat
  · rw [hsame.indexed]
    exact h.emptied d (hsame.isUsed ▸ hd) (hsame.fp ▸ hfp)

/-- Where every copy is closed and the index is empty nothing is missed. -/
theorem stocked_of_closed (harchived : s.Archived cfg) (hfp : ∀ d, s.fp d = none) (hindexed : s.indexed = []) :
    s.Stocked cfg :=
  ⟨harchived, fun d hd => absurd (hfp d) hd, fun _ _ _ => hindexed⟩

theorem ledger_of_empty (h : s.indexed = []) (d : Drive) :
    s.ledger d = (s.renamed d).flatMap ClosedChunk.records := by
  rw [ledger, h]
  split <;> rw [List.append_nil]

/-- Closing the copies of a chunk on the drives that record it files its records. -/
theorem Stocked.closeAll (h : s.Stocked cfg) (hwf : s.fs.WellFormed)
    (hroom : s.indexed.length ≤ cfg.format.indexCapacity) (hfree : s.NamesFree s.chunkDurationUsecs) :
    (Drive.all.foldl (closePrevious cfg) s).Archived cfg ∧ ∀ d,
      ((Drive.all.foldl (closePrevious cfg) s).renamed d).flatMap ClosedChunk.records = s.ledger d := by
  have hclosable : ∀ d, s.Recording d → s.Closable cfg d := by
    intro d hd
    obtain ⟨-, hcopy, hindex⟩ := h.opened d hd.2
    exact ⟨hwf, hcopy, hindex, hroom, hfree d hd⟩
  obtain ⟨harchived, hrenamed⟩ := h.archived.closeAll hclosable
  refine ⟨harchived, fun d => ?_⟩
  rw [hrenamed, List.flatMap_append, ledger]
  by_cases hrecording : s.Recording d
  · rw [if_pos hrecording, if_pos hrecording.1, List.flatMap_singleton]
  · rw [if_neg hrecording, List.flatMap_nil]
    split
    · rename_i hused
      rw [h.emptied d hused (not_not.mp fun hfp => hrecording ⟨hused, hfp⟩)]
    · rfl

/-- Closing a copy does not ask for the pointers to the others. -/
theorem closePrevious_with_fp (cfg : Config) (s : MetaIo) (d : Drive) {fp : Drive → Option ℕ} (h : fp d = s.fp d) :
    closePrevious cfg { s with fp } d = { s.closePrevious cfg d with fp } := by
  unfold closePrevious
  dsimp only
  rw [h]
  split
  · split <;> rfl
  · rfl

/-- Finalising a copy of a chunk with a duration closes it and forgets the pointer. -/
theorem finalizeCopy_eq (cfg : Config) (h : s.Recording d → 0 < s.chunkDurationUsecs) :
    s.finalizeCopy cfg d = { s.closePrevious cfg d with
      fp := Function.update s.fp d (if s.isUsed d = true then none else s.fp d) } := by
  unfold finalizeCopy closePrevious
  cases hfp : s.fp d with
  | none =>
    have hupdate : Function.update s.fp d (if s.isUsed d = true then none else none) = s.fp := by
      rw [ite_self, ← hfp, Function.update_eq_self]
    rw [hupdate]
  | some f =>
    by_cases hused : s.isUsed d = true
    · have hduration : s.isUsed d = true ∧ 0 < s.chunkDurationUsecs := ⟨hused, h ⟨hused, by simp [hfp]⟩⟩
      simp only [if_pos hduration, if_pos hused]
    · have hduration : ¬ (s.isUsed d = true ∧ 0 < s.chunkDurationUsecs) := fun h => hused h.1
      simp only [if_neg hduration, if_neg hused]
      rw [← hfp, Function.update_eq_self]

/-- Finalising a chunk with a duration closes all its copies on drives in use. -/
theorem metadataChunkFinalize_eq (cfg : Config) (h : ∀ d, s.Recording d → 0 < s.chunkDurationUsecs) :
    s.metadataChunkFinalize cfg = { Drive.all.foldl (closePrevious cfg) s with
      fp := fun d => if s.isUsed d = true then none else s.fp d
      recordIndex := []
      indexed := []
      chunkDurationUsecs := 0 } := by
  obtain ⟨hbook, hfp, -⟩ := closePrevious_book cfg s .chm
  obtain ⟨fp, hchm⟩ : ∃ fp, fp = Function.update s.fp .chm (if s.isUsed .chm = true then none else s.fp .chm) :=
    ⟨_, rfl⟩
  have hne : fp .rssd = s.fp .rssd := by
    rw [hchm]
    exact Function.update_of_ne (by decide) _ _
  have hpointers : Function.update fp .rssd (if s.isUsed .rssd = true then none else fp .rssd) =
      fun d => if s.isUsed d = true then none else s.fp d := by
    funext d
    cases d with
    | chm => rw [Function.update_of_ne (by decide), hchm, Function.update_self]
    | rssd => rw [Function.update_self, hne]
  have hrssd : finalizeCopy cfg (s.finalizeCopy cfg .chm) .rssd =
      { closePrevious cfg (s.closePrevious cfg .chm) .rssd with
        fp := fun d => if s.isUsed d = true then none else s.fp d } := by
    rw [finalizeCopy_eq cfg (h .chm), ← hchm, finalizeCopy_eq cfg, closePrevious_with_fp]
    · dsimp only
      rw [hbook.isUsed, hpointers]
    · rw [hne, hfp]
    · rintro ⟨hused, hopen⟩
      rw [hbook.chunkDurationUsecs]
      exact h .rssd ⟨(congrFun hbook.isUsed _).symm.trans hused, hne ▸ hopen⟩
  unfold metadataChunkFinalize
  simp only [Drive.all, List.foldl_cons, List.foldl_nil]
  rw [hrssd]

/-- Finalising a chunk that can be files its records and leaves no copy open. -/
theorem Stocked.finalize (h : s.Stocked cfg) (hwf : s.fs.WellFormed)
    (hroom : s.indexed.length ≤ cfg.format.indexCapacity) (hcan : s.CanFinalize s.chunkDurationUsecs) :
    (s.metadataChunkFinalize cfg).Archived cfg ∧ (∀ d, (s.metadataChunkFinalize cfg).fp d = none) ∧
      ∀ d, ((s.metadataChunkFinalize cfg).renamed d).flatMap ClosedChunk.records = s.ledger d := by
  obtain ⟨harchived, hledger⟩ := h.closeAll hwf hroom hcan.2
  rw [metadataChunkFinalize_eq cfg hcan.1]
  refine ⟨⟨harchived.stored, harchived.room, harchived.distinct⟩, fun d => ?_, hledger⟩
  dsimp only
  split
  · rfl
  · rename_i hused
    exact not_not.mp fun hfp => hused (h.opened d hfp).1

/-- Making the directory of the hour renames nothing. -/
theorem prepareSubpath_renamed (s : MetaIo) (d : Drive) : s.prepareSubpath.renamed d = s.renamed d := by
  refine foldl_invariant (I := fun t : MetaIo => t.renamed d = s.renamed d) rfl ?_
  intro t e _ ht
  split
  · rw [← ht]
    simp [renamed]
  · exact ht

theorem nameChunk_renamed (s : MetaIo) (tm : Tm) (d : Drive) : (s.nameChunk tm).renamed d = s.renamed d := by
  simp only [nameChunk]
  split
  · exact prepareSubpath_renamed _ d
  · rfl

/-- Opening a copy keeps the files of the data directories. -/
theorem openCopy_kept (cfg : Config) (hwf : s.fs.WellFormed) (r : Record) (d : Drive) :
    (∀ p bytes, p.area = .data → s.fs.Stored p bytes → (s.openCopy cfg r d).fs.Stored p bytes) ∧
      ∀ e, (s.openCopy cfg r d).renamed e = s.renamed e := by
  have hops : (s.openCopy cfg r d).ops = s.ops := by
    unfold openCopy
    split <;> rfl
  refine ⟨?_, fun e => by rw [renamed, hops, renamed]⟩
  cases hused : s.isUsed d with
  | true =>
    obtain ⟨-, hfs⟩ := openCopy_fresh cfg hwf r hused
    refine fun p bytes hp => hfs.stored p bytes fun hmem => ?_
    rw [Set.mem_singleton_iff.mp hmem] at hp
    cases hp
  | false =>
    have hsame : s.openCopy cfg r d = s := by rw [openCopy, if_neg (by simp [hused])]
    rw [hsame]
    exact fun _ _ _ => id

/-- Behind the closing of the previous copies, starting a chunk keeps the files of the data directories. -/
theorem startChunk_kept (horderly : s.Orderly fun _ => True) (cfg : Config) (r : Record) :
    (∀ p bytes, p.area = .data →
      (Drive.all.foldl (closePrevious cfg)
        { s with sessionJustStarted := false, driveStatusUpdated := false }).fs.Stored p bytes →
      (s.startChunk cfg r).fs.Stored p bytes) ∧ ∀ d, (s.startChunk cfg r).renamed d =
        (Drive.all.foldl (closePrevious cfg)
          { s with sessionJustStarted := false, driveStatusUpdated := false }).renamed d := by
  let s₀ : MetaIo := { s with sessionJustStarted := false, driveStatusUpdated := false }
  have horderly₀ : s₀.Orderly fun _ => True := horderly.of_eq rfl rfl
  change (∀ p bytes, p.area = .data → (Drive.all.foldl (closePrevious cfg) s₀).fs.Stored p bytes → _) ∧
    ∀ d, _ = (Drive.all.foldl (closePrevious cfg) s₀).renamed d
  obtain ⟨s₁, hs₁⟩ : ∃ s₁, s₁ = Drive.all.foldl (closePrevious cfg) s₀ := ⟨_, rfl⟩
  have horderly₁ := closeAll_orderly horderly₀ cfg
  rw [← hs₁] at horderly₁ ⊢
  obtain ⟨s₂, hs₂⟩ : ∃ s₂, s₂ = s₁.nameChunk (gmtime r.tod) := ⟨_, rfl⟩
  have hnamed : Named s₁ s₂ (gmtime r.tod) := hs₂ ▸ nameChunk_named s₁ (gmtime r.tod)
  have hwf₂ : s₂.fs.WellFormed := by
    rw [hnamed.fs]
    exact horderly₁.wellFormed
  obtain ⟨hchm, hchm'⟩ := openCopy_kept cfg hwf₂ r .chm
  have hwf₃ : (s₂.openCopy cfg r .chm).fs.WellFormed := by
    cases hused : s₂.isUsed .chm with
    | true => exact (openCopy_fresh cfg hwf₂ r hused).2.wellFormed
    | false =>
      rw [openCopy, if_neg (by simp [hused])]
      exact hwf₂
  obtain ⟨hrssd, hrssd'⟩ := openCopy_kept cfg hwf₃ r .rssd
  have hstart : s.startChunk cfg r = (s₂.openCopy cfg r .chm).openCopy cfg r .rssd := by
    rw [hs₂, hs₁]
    rfl
  rw [hstart]
  refine ⟨fun p bytes hp hstored => ?_, fun d => ?_⟩
  · rw [← hnamed.fs] at hstored
    exact hrssd p bytes hp (hchm p bytes hp hstored)
  · rw [hrssd', hchm', hs₂, nameChunk_renamed]

/-- Starting a chunk files the records of the previous one. -/
theorem Stocked.startChunk (h : s.Stocked cfg) (horderly : s.Orderly fun _ => True)
    (hroom : s.indexed.length ≤ cfg.format.indexCapacity) (hfree : s.NamesFree s.chunkDurationUsecs) :
    (s.startChunk cfg r).Archived cfg ∧
      ∀ d, ((s.startChunk cfg r).renamed d).flatMap ClosedChunk.records = s.ledger d := by
  have hsame : SameCopies s { s with sessionJustStarted := false, driveStatusUpdated := false } :=
    ⟨rfl, rfl, rfl, rfl, rfl, rfl, rfl, rfl⟩
  obtain ⟨harchived, hledger⟩ := (h.of_same hsame).closeAll horderly.wellFormed hroom hfree
  obtain ⟨hkept, hrenamed⟩ := startChunk_kept horderly cfg r
  refine ⟨harchived.of_stored hkept hrenamed, fun d => ?_⟩
  rw [hrenamed, hledger, hsame.ledger]

/-- Writing a record changes only the files and the position. -/
theorem writeRecord_eq (cfg : Config) (s : MetaIo) (r : Record) :
    ∃ fs pos, s.writeRecord cfg r = { s with fs, pos } := by
  have hcopies : ∃ fs, s.writeMetadata cfg r = { s with fs } := by
    refine foldl_invariant (I := fun t : MetaIo => ∃ fs, t = { s with fs }) ⟨s.fs, rfl⟩ ?_
    rintro _ d _ ⟨fs, rfl⟩
    unfold writeCopy
    split
    · split
      · exact ⟨_, rfl⟩
      · exact ⟨fs, rfl⟩
    · exact ⟨fs, rfl⟩
  obtain ⟨fs, hfs⟩ := hcopies
  unfold writeRecord
  split
  · rw [hfs]
    exact ⟨_, _, rfl⟩
  · exact ⟨s.fs, s.pos, rfl⟩

/-- Following the commanded drives finalises the chunk if they changed, which leaves the ledgers alone;
otherwise the new names are free where the record starts a chunk. -/
theorem Stocked.followDrives (h : s.Stocked cfg) (hcoherent : s.Coherent cfg)
    (hfree : if s.isDriveStatusUpdated rm = true then s.CanFinalize s.chunkDurationUsecs
      else s.startsChunk cfg rm r = true → s.NamesFree (durationUsecs s.t0 r.ts.nanoseconds)) :
    (s.followDrives cfg rm r).Stocked cfg ∧ (∀ d, (s.followDrives cfg rm r).ledger d = s.ledger d) ∧
      ((s.followDrives cfg rm r).isNewChunkRequired cfg (gmtime r.tod) = true →
        (s.followDrives cfg rm r).NamesFree (durationUsecs (s.followDrives cfg rm r).t0 r.ts.nanoseconds)) := by
  cases hupdated : s.isDriveStatusUpdated rm with
  | false =>
    have hstarts : (s.followDrives cfg rm r).isNewChunkRequired cfg (gmtime r.tod) = true →
        s.startsChunk cfg rm r = true := (isNewChunkRequired_followDrives cfg s rm r).symm.trans
    rw [followDrives_of_not_updated cfg hupdated] at hstarts ⊢
    have hsame : SameCopies s { s with
        preRec := fun d => some (rm d)
        driveStatusUpdated := false
        taken := s.taken ++ [(rm, r)] } := ⟨rfl, rfl, rfl, rfl, rfl, rfl, rfl, rfl⟩
    refine ⟨h.of_same hsame, hsame.ledger, fun hrequired => ?_⟩
    rw [hupdated] at hfree
    exact hfree (hstarts hrequired)
  | true =>
    let s₀ : MetaIo := { s with
      preRec := fun d => some (rm d)
      driveStatusUpdated := true
      taken := s.taken ++ [(rm, r)] }
    have hfollow : s.followDrives cfg rm r = { s₀.metadataChunkFinalize cfg with isUsed := rm } :=
      followDrives_of_updated cfg hupdated r
    rw [hupdated] at hfree
    have hsame : SameCopies s s₀ := ⟨rfl, rfl, rfl, rfl, rfl, rfl, rfl, rfl⟩
    obtain ⟨harchived, hfp, hledger⟩ :=
      (h.of_same hsame).finalize hcoherent.orderly.wellFormed hcoherent.room hfree
    have hindexed : (s₀.metadataChunkFinalize cfg).indexed = [] := rfl
    rw [hfollow]
    obtain ⟨u, hu⟩ : ∃ u, u = s₀.metadataChunkFinalize cfg := ⟨_, rfl⟩
    rw [← hu] at harchived hfp hledger hindexed ⊢
    refine ⟨stocked_of_closed ⟨harchived.stored, harchived.room, harchived.distinct⟩ hfp hindexed, ?_, ?_⟩
    · intro d
      have hfiles : ledger { u with isUsed := rm } d = (u.renamed d).flatMap ClosedChunk.records :=
        ledger_of_empty (s := { u with isUsed := rm }) hindexed d
      exact hfiles.trans ((hledger d).trans (hsame.ledger d))
    · exact fun _ d hd => absurd (hfp d) hd.2

/-- Having a chunk for a record leaves the ledgers alone. -/
theorem Stocked.ensureChunk (h : s.Stocked cfg) (hfollowed : s.Followed cfg) (hdeltat : cfg.deltat ≠ 0)
    (hfree : s.isNewChunkRequired cfg (gmtime r.tod) = true → s.NamesFree (durationUsecs s.t0 r.ts.nanoseconds)) :
    (s.ensureChunk cfg r).Stocked cfg ∧ (∀ d, (s.ensureChunk cfg r).ledger d = s.ledger d) ∧
      (s.ensureChunk cfg r).taken = s.taken ∧ (s.ensureChunk cfg r).isUsed = s.isUsed ∧
      (s.ensureChunk cfg r).isActive = s.isActive := by
  obtain ⟨duration, hduration⟩ : ∃ duration, durationUsecs s.t0 r.ts.nanoseconds = duration := ⟨_, rfl⟩
  rw [hduration] at hfree
  have hreach : s.reachRecord r = { s with chunkDurationUsecs := duration, forwardTimeChangeOccurred := false } := by
    rw [reachRecord, hduration]
  let u : MetaIo := { s with chunkDurationUsecs := duration, forwardTimeChangeOccurred := false }
  have hsame : SameCopies s u := ⟨rfl, rfl, rfl, rfl, rfl, rfl, rfl, rfl⟩
  have hstocked : u.Stocked cfg := h.of_same hsame
  cases hrequired : s.isNewChunkRequired cfg (gmtime r.tod) with
  | false =>
    rw [ensureChunk_of_not_required hdeltat hrequired, hreach]
    exact ⟨hstocked, hsame.ledger, rfl, rfl, rfl⟩
  | true =>
    have horderly : u.Orderly fun _ => True :=
      hfollowed.orderly.of_eq rfl rfl
    have hstarted : Started cfg u (u.startChunk cfg r) := startChunk_started horderly cfg r
    obtain ⟨harchived, hledger⟩ := hstocked.startChunk (r := r) horderly hfollowed.room (hfree hrequired)
    rw [ensureChunk_of_required hdeltat hrequired, hreach]
    change Stocked cfg (if Drive.all.any s.isUsed then
      { u.startChunk cfg r with pos := cfg.format.bodyOffset } else u.startChunk cfg r) ∧ _
    obtain ⟨v, hv⟩ : ∃ v, v = u.startChunk cfg r := ⟨_, rfl⟩
    rw [← hv] at hstarted harchived hledger ⊢
    have hrecords : v.indexedRecords = [] := congrArg (List.map Prod.snd) hstarted.indexed
    have hnew : v.Stocked cfg := by
      refine ⟨harchived, fun d hd => ?_, fun _ _ _ => hstarted.indexed⟩
      have hused : s.isUsed d = true := by
        by_contra hunused
        rw [(hstarted.unused d (by simpa using hunused)).1] at hd
        exact hunused (h.opened d hd).1
      rw [hrecords, hstarted.recordIndex]
      exact ⟨(congrFun hstarted.isUsed d).trans hused, hstarted.fresh d hused, rfl⟩
    have hpos : SameCopies v (if Drive.all.any s.isUsed then { v with pos := cfg.format.bodyOffset } else v) := by
      split <;> exact ⟨rfl, rfl, rfl, rfl, rfl, rfl, rfl, rfl⟩
    refine ⟨hnew.of_same hpos, fun d => ?_, ?_, hpos.isUsed.trans hstarted.isUsed, ?_⟩
    · rw [hpos.ledger, ledger_of_empty hstarted.indexed, hledger, hsame.ledger]
    · split <;> exact hstarted.taken
    · split <;> exact hstarted.isActive

/-- Writing a record to the copies keeps the files of the data directories. -/
theorem writeRecord_kept (hn : cfg.nCopies = 2) (horderly : s.Orderly fun _ => True) {rs : List Record}
    (hcopies : ∀ d, s.isUsed d = true → s.HasCopy cfg d rs) (r : Record) {p : Path} {bytes : List UInt8}
    (hp : p.area = .data) (hstored : s.fs.Stored p bytes) : (s.writeRecord cfg r).fs.Stored p bytes := by
  obtain ⟨-, -, -, -, -, hkept⟩ := writeMetadata_copies hn horderly hcopies r
  unfold writeRecord
  split
  · exact hkept p bytes hp hstored
  · exact hstored

/-- Recording a record in a chunk that is ready for it adds it to the ledgers of the drives in use. -/
theorem Stocked.record (h : s.Stocked cfg) (hready : s.Ready cfg) (hn : cfg.nCopies = 2) (r : Record) :
    ((s.enterRecord cfg r).writeRecord cfg r).Stocked cfg ∧
      (∀ d, ((s.enterRecord cfg r).writeRecord cfg r).ledger d =
        s.ledger d ++ if s.isUsed d = true then [(s.taken.length - 1, r)] else []) ∧
      ((s.enterRecord cfg r).writeRecord cfg r).taken = s.taken ∧
      ((s.enterRecord cfg r).writeRecord cfg r).isUsed = s.isUsed ∧
      ((s.enterRecord cfg r).writeRecord cfg r).isActive = s.isActive := by
  have hcoherent := hready.record hn r
  rw [enterRecord_of_room (hready.counted ▸ hready.room)] at hcoherent ⊢
  let u : MetaIo := { s with
    recordIndex := s.recordIndex ++ [cfg.format.indexEntry r s.pos]
    indexed := s.indexed ++ [(s.taken.length - 1, r)] }
  have hkept : ∀ p bytes, p.area = .data → s.fs.Stored p bytes → (u.writeRecord cfg r).fs.Stored p bytes :=
    fun p bytes hp hstored => writeRecord_kept (s := u) hn
      (hready.orderly.of_eq rfl rfl) hready.live.copies r hp hstored
  obtain ⟨fs, pos, hwritten⟩ := writeRecord_eq cfg u r
  change Coherent cfg (u.writeRecord cfg r) at hcoherent
  change Stocked cfg (u.writeRecord cfg r) ∧ (∀ d, (u.writeRecord cfg r).ledger d = _) ∧
    (u.writeRecord cfg r).taken = _ ∧ (u.writeRecord cfg r).isUsed = _ ∧ (u.writeRecord cfg r).isActive = _
  rw [hwritten] at hcoherent hkept ⊢
  have hlive := hcoherent.phase.resolve_right fun hwaiting => by
    have hstarted := hwaiting.sessionJustStarted.symm.trans hready.sessionJustStarted
    cases hstarted
  refine ⟨⟨h.archived.of_stored hkept fun _ => rfl, fun d hd => ?_, fun d hd hfp => ?_⟩, fun d => ?_, rfl, rfl, rfl⟩
  · have hused := (h.opened d hd).1
    exact ⟨hused, hlive.copies d hused, hlive.recordIndex ⟨d, hused⟩⟩
  · obtain ⟨f, -, -, hf, -, -⟩ := hlive.copies d hd
    rw [hfp] at hf
    cases hf
  · change (s.renamed d).flatMap ClosedChunk.records ++ (if s.isUsed d = true then _ else _) = _
    rw [ledger]
    split
    · exact (List.append_assoc _ _ _).symm
    · exact (List.append_nil _).symm

/-- No record is in a ledger twice, and each record taken while the drive was commanded is in its
ledger. -/
structure Accounted (s : MetaIo) : Prop where
  nodup : ∀ d, (s.ledger d).Nodup
  numbered : ∀ d, ∀ q ∈ s.ledger d, q.1 < s.taken.length
  complete : ∀ d k rm r, s.taken[k]? = some (rm, r) → rm d = true → (k, r) ∈ s.ledger d

theorem accounted_start (used : Drive → Bool) : (start used).Accounted := by
  have hempty : ∀ d, (start used).ledger d = [] := fun d => ledger_of_empty rfl d
  refine ⟨fun d => ?_, fun d q hq => ?_, fun d k rm r hk => ?_⟩
  · rw [hempty]
    exact List.nodup_nil
  · rw [hempty] at hq
    cases hq
  · cases hk

theorem Accounted.of_eq (h : s.Accounted) (hledger : ∀ d, t.ledger d = s.ledger d) (htaken : t.taken = s.taken) :
    t.Accounted := by
  refine ⟨fun d => ?_, fun d => ?_, fun d k rm r hk => ?_⟩
  · rw [hledger]
    exact h.nodup d
  · rw [hledger, htaken]
    exact h.numbered d
  · rw [htaken] at hk
    rw [hledger]
    exact h.complete d k rm r hk

/-- A record that is added to the ledgers of the drives in use is accounted for, if the commanded drives are
in use. -/
theorem Accounted.record (h : s.Accounted) (htaken : t.taken = s.taken ++ [(rm, r)])
    (hledger : ∀ d, t.ledger d = s.ledger d ++ if t.isUsed d = true then [(s.taken.length, r)] else [])
    (hused : ∀ d, rm d = true → t.isUsed d = true) : t.Accounted := by
  refine ⟨fun d => ?_, fun d q hq => ?_, fun d k rm' r' hk hd => ?_⟩
  · rw [hledger]
    split
    · refine List.nodup_append.mpr ⟨h.nodup d, List.nodup_singleton _, fun p hp q hq => ?_⟩
      have hnumber := h.numbered d p hp
      rw [List.mem_singleton.mp hq]
      rintro rfl
      exact absurd hnumber (Nat.lt_irrefl _)
    · rw [List.append_nil]
      exact h.nodup d
  · rw [htaken, List.length_append, List.length_singleton]
    rw [hledger, List.mem_append] at hq
    rcases hq with hold | hnew
    · exact Nat.lt_succ_of_lt (h.numbered d q hold)
    · split at hnew
      · rw [List.mem_singleton.mp hnew]
        exact Nat.lt_succ_self _
      · cases hnew
  · rw [hledger, List.mem_append]
    rw [htaken, List.getElem?_append] at hk
    split at hk
    · exact .inl (h.complete d k rm' r' hk hd)
    · have hlast : k = s.taken.length := by
        have hlt := (List.getElem?_eq_some_iff.mp hk).1
        rw [List.length_singleton] at hlt
        omega
      subst hlast
      simp only [Nat.sub_self, List.getElem?_cons_zero, Option.some.injEq, Prod.mk.injEq] at hk
      obtain ⟨rfl, rfl⟩ := hk
      rw [if_pos (hused d hd)]
      exact .inr (List.mem_singleton_self _)

/-- Nothing that happens while the thread runs loses a record: the commanded drives are in use when a record
is dequeued and the pointers are kept to drives in use, a chunk can be finalised where it is, and where the
record starts a chunk the new names are free. -/
def KeepsRecords (cfg : Config) (s : MetaIo) (e : Event) : Prop :=
  s.isActive = true → match e with
    | .record rm r => (∀ d, rm d = true → s.usedNext rm d = true) ∧ s.KeepsPointers (.record rm r) ∧
        if s.isDriveStatusUpdated rm = true then s.CanFinalize s.chunkDurationUsecs
        else s.startsChunk cfg rm r = true → s.NamesFree (durationUsecs s.t0 r.ts.nanoseconds)
    | .idle now => s.timesOut cfg now = true → s.CanFinalize (durationUsecs s.t0 now.nanoseconds)
    | .forwardTimeChange => True
    | .stop => s.CanFinalize s.chunkDurationUsecs

instance (s : MetaIo) (e : Event) : Decidable (s.KeepsRecords cfg e) := by
  apply Event.casesOn (motive := fun e => Decidable (s.KeepsRecords cfg e)) e <;> intros <;> unfold KeepsRecords <;>
    infer_instance

/-- Each record that was taken while the drive was commanded is once in the files renamed on it, each such
file has its records in the index and the body, and none took the name of another. -/
structure Preserved (cfg : Config) (s : MetaIo) : Prop where
  once : ∀ d k rm r, s.taken[k]? = some (rm, r) → rm d = true →
    ((s.renamed d).flatMap ClosedChunk.records).count (k, r) = 1
  filed : ∀ d, ∀ c ∈ s.renamed d, ∃ sec usec,
    s.fs.Stored (c.path d) (cfg.format.finalImage sec usec (c.records.map Prod.snd)) ∧
      cfg.format.Holds (cfg.format.finalImage sec usec (c.records.map Prod.snd)) (c.records.map Prod.snd)
  distinct : ∀ d, ((s.renamed d).map fun c => c.path d).Nodup

/-- The thread runs, the copies agree with the index, and every record is accounted for. -/
structure Kept (cfg : Config) (s : MetaIo) : Prop where
  isActive : s.isActive = true
  coherent : s.Coherent cfg
  stocked : s.Stocked cfg
  accounted : s.Accounted

theorem kept_start (cfg : Config) (used : Drive → Bool) : (start used).Kept cfg :=
  ⟨rfl, coherent_start cfg used, stocked_of_closed (archived_start cfg used) (fun _ => rfl) rfl, accounted_start used⟩

/-- What is accounted for is preserved once the index is empty. -/
theorem Accounted.preserved (h : s.Accounted) (harchived : s.Archived cfg) (hindexed : s.indexed = []) :
    s.Preserved cfg := by
  refine ⟨fun d k rm r hk hd => ?_, fun d c hc => ?_, harchived.distinct⟩
  · have hmem := h.complete d k rm r hk hd
    have hnodup := h.nodup d
    rw [ledger_of_empty hindexed] at hmem hnodup
    exact List.count_eq_one_of_mem hnodup hmem
  · obtain ⟨sec, usec, hstored⟩ := harchived.stored d c hc
    refine ⟨sec, usec, hstored, ChunkFormat.holds_finalImage ?_⟩
    rw [List.length_map]
    exact harchived.room d c hc

/-- Following the commanded drives takes the record. -/
theorem followDrives_book (cfg : Config) (s : MetaIo) (rm : Drive → Bool) (r : Record) :
    (s.followDrives cfg rm r).isUsed = s.usedNext rm ∧
      (s.followDrives cfg rm r).taken = s.taken ++ [(rm, r)] ∧
      (s.followDrives cfg rm r).isActive = s.isActive := by
  unfold usedNext
  cases hupdated : s.isDriveStatusUpdated rm with
  | false =>
    rw [followDrives_of_not_updated cfg hupdated]
    exact ⟨rfl, rfl, rfl⟩
  | true =>
    rw [followDrives_of_updated cfg hupdated]
    have hfinal := metadataChunkFinalize_finalized cfg { s with
      preRec := fun d => some (rm d)
      driveStatusUpdated := true
      taken := s.taken ++ [(rm, r)] }
    exact ⟨rfl, hfinal.taken, hfinal.isActive⟩

/-- The round for a record keeps it and loses none. -/
theorem Kept.recordRound (h : s.Kept cfg) (hn : cfg.nCopies = 2) (hdeltat : cfg.deltat ≠ 0)
    (hkeeps : s.KeepsRecords cfg (.record rm r)) : (s.recordRound cfg rm r).Kept cfg := by
  obtain ⟨hcommanded, hpointers, hfree⟩ := hkeeps h.isActive
  obtain ⟨hused₁, htaken₁, hactive₁⟩ := followDrives_book cfg s rm r
  obtain ⟨hstocked₁, hledger₁, hfree₁⟩ := h.stocked.followDrives h.coherent hfree
  have hfollowed : (s.followDrives cfg rm r).Followed cfg := h.coherent.followDrives hpointers
  obtain ⟨hstocked₂, hledger₂, htaken₂, hused₂, hactive₂⟩ := hstocked₁.ensureChunk hfollowed hdeltat hfree₁
  have hready : ((s.followDrives cfg rm r).ensureChunk cfg r).Ready cfg := hfollowed.ensureChunk hdeltat r
  obtain ⟨hstocked₃, hledger₃, htaken₃, hused₃, hactive₃⟩ := hstocked₂.record hready hn r
  refine ⟨?_, h.coherent.recordRound hn hpointers, hstocked₃, ?_⟩
  · exact hactive₃.trans (hactive₂.trans (hactive₁.trans h.isActive))
  · refine h.accounted.record (htaken₃.trans (htaken₂.trans htaken₁)) (fun d => ?_) fun d hd => ?_
    · refine (hledger₃ d).trans ?_
      rw [hledger₂, hledger₁, htaken₂, htaken₁, List.length_append, List.length_singleton, Nat.add_sub_cancel,
        MetaIo.recordRound, hused₃]
    · rw [MetaIo.recordRound, hused₃, hused₂, hused₁]
      exact hcommanded d hd

/-- An idle poll loses no record. -/
theorem Kept.idleRound (h : s.Kept cfg) {now : Timespec} (hkeeps : s.KeepsRecords cfg (.idle now)) :
    (s.idleRound cfg now).Kept cfg := by
  suffices hrest : (s.idleRound cfg now).isActive = true ∧ (s.idleRound cfg now).Stocked cfg ∧
      (s.idleRound cfg now).Accounted from ⟨hrest.1, h.coherent.idleRound now, hrest.2.1, hrest.2.2⟩
  have hcan : s.timesOut cfg now = true → s.CanFinalize (durationUsecs s.t0 now.nanoseconds) := hkeeps h.isActive
  unfold MetaIo.idleRound
  obtain ⟨duration, hduration⟩ : ∃ duration, durationUsecs s.t0 now.nanoseconds = duration := ⟨_, rfl⟩
  rw [hduration] at hcan ⊢
  let u : MetaIo := { s with chunkDurationUsecs := duration }
  have hsame : SameCopies s u := ⟨rfl, rfl, rfl, rfl, rfl, rfl, rfl, rfl⟩
  split
  · dsimp only
    split
    · rename_i htimeout
      obtain ⟨harchived, hfp, hledger⟩ :=
        (h.stocked.of_same hsame).finalize h.coherent.orderly.wellFormed h.coherent.room (hcan htimeout)
      have hfinal : Finalized u (u.metadataChunkFinalize cfg) := metadataChunkFinalize_finalized cfg u
      obtain ⟨v, hv⟩ : ∃ v, u.metadataChunkFinalize cfg = v := ⟨_, rfl⟩
      rw [hv] at harchived hfp hledger hfinal ⊢
      refine ⟨hfinal.isActive.trans h.isActive, stocked_of_closed
        ⟨harchived.stored, harchived.room, harchived.distinct⟩ hfp hfinal.indexed, ?_⟩
      refine h.accounted.of_eq (fun d => ?_) hfinal.taken
      have hfiles : ledger { v with sessionJustStarted := true, out := fun _ => none } d =
          (v.renamed d).flatMap ClosedChunk.records :=
        ledger_of_empty (s := { v with sessionJustStarted := true, out := fun _ => none }) hfinal.indexed d
      exact hfiles.trans ((hledger d).trans (hsame.ledger d))
    · exact ⟨h.isActive, h.stocked.of_same hsame, h.accounted.of_eq hsame.ledger rfl⟩
  · exact ⟨h.isActive, h.stocked, h.accounted⟩

/-- When the thread stops everything is preserved. -/
theorem Kept.stop (h : s.Kept cfg) (hcan : s.CanFinalize s.chunkDurationUsecs) :
    Preserved cfg { s.metadataChunkFinalize cfg with isActive := false } := by
  obtain ⟨harchived, -, hledger⟩ := h.stocked.finalize h.coherent.orderly.wellFormed h.coherent.room hcan
  have hfinal : Finalized s (s.metadataChunkFinalize cfg) := metadataChunkFinalize_finalized cfg s
  have haccounted : (s.metadataChunkFinalize cfg).Accounted :=
    h.accounted.of_eq (fun d => (ledger_of_empty hfinal.indexed d).trans (hledger d)) hfinal.taken
  have hpreserved := haccounted.preserved harchived hfinal.indexed
  exact ⟨hpreserved.once, hpreserved.filed, hpreserved.distinct⟩

/-- The thread runs and everything is kept, or it has stopped and everything is preserved. -/
def KeptOrStopped (cfg : Config) (s : MetaIo) : Prop :=
  s.Kept cfg ∨ s.isActive = false ∧ s.Preserved cfg

theorem KeptOrStopped.step (h : s.KeptOrStopped cfg) (hn : cfg.nCopies = 2) (hdeltat : cfg.deltat ≠ 0) {e : Event}
    (hkeeps : s.KeepsRecords cfg e) : (s.step cfg e).KeptOrStopped cfg := by
  unfold MetaIo.step
  by_cases hactive : s.isActive = true
  · rw [if_pos hactive]
    have hkept : s.Kept cfg := h.resolve_right fun h' => by simp [h'.1] at hactive
    cases e with
    | record rm r => exact .inl (hkept.recordRound hn hdeltat hkeeps)
    | idle now => exact .inl (hkept.idleRound hkeeps)
    | forwardTimeChange =>
      have hsame : SameCopies s { s with forwardTimeChangeOccurred := true } :=
        ⟨rfl, rfl, rfl, rfl, rfl, rfl, rfl, rfl⟩
      exact .inl ⟨hactive, hkept.coherent.forwardTimeChange, hkept.stocked.of_same hsame,
        hkept.accounted.of_eq hsame.ledger rfl⟩
    | stop => exact .inr ⟨rfl, hkept.stop (hkeeps hactive)⟩
  · rw [if_neg hactive]
    exact h

/-- In every run to a stop in which nothing loses a record, each record that was dequeued while a drive was
commanded is in exactly one file renamed on that drive, and no file took the name of another. -/
theorem run_preserved (cfg : Config) (hn : cfg.nCopies = 2) (hdeltat : cfg.deltat ≠ 0) (used : Drive → Bool)
    (es : List Event) (hkeeps : Guarded (step cfg) (KeepsRecords cfg) (start used) (es ++ [.stop])) :
    (run (step cfg) (start used) (es ++ [.stop])).Preserved cfg := by
  have h : (run (step cfg) (start used) (es ++ [.stop])).KeptOrStopped cfg :=
    run_invariant (I := KeptOrStopped cfg) (fun _ _ h hk => h.step hn hdeltat hk)
      (.inl (kept_start cfg used)) hkeeps
  refine (h.resolve_left fun hkept => ?_).2
  have hactive := hkept.isActive
  rw [run_append, run_cons, run_nil, MetaIo.step] at hactive
  split at hactive
  · cases hactive
  · rename_i hstopped
    exact hstopped hactive

/-- Both drives record two chunks of two records. -/
theorem run_preserved_both :
    (run (step sampleConfig) (start fun _ => true) ([.record (fun _ => true) (sampleRecord 0),
      .record (fun _ => true) (sampleRecord 1), .forwardTimeChange, .record (fun _ => true) (sampleRecord 2),
      .record (fun _ => true) (sampleRecord 3)] ++ [.stop])).Preserved sampleConfig :=
  run_preserved sampleConfig rfl (by decide) _ _ (by decide +kernel)

/-- A chunk of one record is not closed when the thread stops. -/
theorem run_not_preserved :
    ¬ (run (step sampleConfig) (start fun _ => true) ([.record (fun _ => true) (sampleRecord 0)] ++
      [.stop])).Preserved sampleConfig := by
  intro h
  have honce := h.once .chm 0 (fun _ => true) (sampleRecord 0) (by decide +kernel) rfl
  revert honce
  decide +kernel

end MetaIo

end RecordingAgent.Metarec
