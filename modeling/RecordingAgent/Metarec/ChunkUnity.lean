import RecordingAgent.Metarec.Gathering

/-!
# A chunk is one stretch of the records

Whatever happens to the thread, the records of a closed chunk are consecutive records of the queue: of one hour of the
wall clock, taken under one command of the drives, with no forward time change between them, and no more of them than
the index holds and than a chunk may have. The chunk is named after the first of them. The drive on which it is closed
was commanded for them, or it was in use from the start and no other command was seen.
-/

namespace RecordingAgent.Metarec

open Foundation

/-- A record which was dequeued, under a command of the drives, behind so many forward time changes. -/
structure Taken where
  changes : ℕ
  rm : Drive → Bool
  record : Record

/-- The record with its command, as the thread keeps it. -/
def Taken.entry (t : Taken) : (Drive → Bool) × Record := (t.rm, t.record)

/-- The records which are dequeued before the thread stops, when there were so many time changes before. -/
def takenFrom (changes : ℕ) : List Event → List Taken
  | [] => []
  | .record rm r :: es => ⟨changes, rm, r⟩ :: takenFrom changes es
  | .idle _ :: es => takenFrom changes es
  | .forwardTimeChange :: es => takenFrom (changes + 1) es
  | .stop :: _ => []

theorem SameHour.symm {tm tm' : Tm} (h : SameHour tm tm') : SameHour tm' tm :=
  ⟨h.1.symm, h.2.1.symm, h.2.2.1.symm, h.2.2.2.symm⟩

theorem SameHour.trans {tm tm' tm'' : Tm} (h : SameHour tm tm') (h' : SameHour tm' tm'') : SameHour tm tm'' :=
  ⟨h.1.trans h'.1, h.2.1.trans h'.2.1, h.2.2.1.trans h'.2.2.1, h.2.2.2.trans h'.2.2.2⟩

/-- Two records may be in one chunk. -/
structure SameStretch (a b : Taken) : Prop where
  changes : a.changes = b.changes
  rm : a.rm = b.rm
  hour : SameHour (gmtime a.record.tod) (gmtime b.record.tod)

/-- Records with their numbers, the first of which is this one. -/
def numbered (first : ℕ) (ts : List Taken) : List (ℕ × Record) := (ts.zipIdx first).map fun t => (t.2, t.1.record)

/-- The chunk has the name of its first record. -/
def NamedAfter (fname : CString) (ts : List Taken) : Prop :=
  ∀ t ∈ ts.head?, fname = chunkFnameOf (gmtime t.record.tod)

/-- The last record was taken under a command for the drive, or the drive was in use from the start and all records were
taken under one command. -/
def Commanded (used : Drive → Bool) (history : List Taken) (d : Drive) : Prop :=
  (∃ t ∈ history.getLast?, t.rm d = true) ∨ used d = true ∧ ∀ a ∈ history, ∀ b ∈ history, a.rm = b.rm

/-- The numbered records are consecutive ones of the history, all of which may be in one chunk of the drive, and no more
than fit; the chunk has the name of the first of them. -/
def OneStretch (cfg : Config) (used : Drive → Bool) (history : List Taken) (d : Drive) (fname : CString)
    (records : List (ℕ × Record)) : Prop :=
  ∃ before ts behind, history = before ++ ts ++ behind ∧ records = numbered before.length ts ∧
    ts.Pairwise SameStretch ∧ (ts ≠ [] → Commanded used (before ++ ts) d) ∧ NamedAfter fname ts ∧
    ts.length ≤ cfg.format.indexCapacity ∧ ts.length ≤ max 1 cfg.chunkMaxDuration

variable {cfg : Config} {history : List Taken} {used : Drive → Bool} {d : Drive} {fname : CString}
  {records : List (ℕ × Record)} {changes : ℕ} {t : Taken}

theorem namedAfter_nil (fname : CString) : NamedAfter fname [] := fun _ h => by cases h

theorem OneStretch.nil (cfg : Config) (used : Drive → Bool) (history : List Taken) (d : Drive) (fname : CString) :
    OneStretch cfg used history d fname [] :=
  ⟨[], [], history, rfl, rfl, .nil, fun h => absurd rfl h, namedAfter_nil fname, Nat.zero_le _, Nat.zero_le _⟩

/-- What is dequeued later changes nothing. -/
theorem OneStretch.append (h : OneStretch cfg used history d fname records) (more : List Taken) :
    OneStretch cfg used (history ++ more) d fname records := by
  obtain ⟨before, ts, behind, rfl, hrecords⟩ := h
  exact ⟨before, ts, behind ++ more, by simp only [List.append_assoc], hrecords⟩

/-- A record under the command of the last one keeps the drives commanded. -/
theorem Commanded.append (h : Commanded used history d) (hsame : ∀ a ∈ history.getLast?, a.rm = t.rm) :
    Commanded used (history ++ [t]) d := by
  rcases h with ⟨a, ha, hcommanded⟩ | ⟨hused, hall⟩
  · refine Or.inl ⟨t, by rw [List.getLast?_concat]; rfl, ?_⟩
    rw [← hsame a ha]
    exact hcommanded
  · have hlast : ∀ a ∈ history, a.rm = t.rm := by
      intro a ha
      cases hget : history.getLast? with
      | none =>
        rw [List.getLast?_eq_none_iff.mp hget] at ha
        cases ha
      | some b =>
        exact (hall a ha b (List.mem_of_getLast? hget)).trans (hsame b hget)
    refine Or.inr ⟨hused, fun a ha b hb => ?_⟩
    rcases List.mem_append.mp ha with ha | ha <;> rcases List.mem_append.mp hb with hb | hb
    · exact hall a ha b hb
    · rw [List.mem_singleton.mp hb]
      exact hlast a ha
    · rw [List.mem_singleton.mp ha]
      exact (hlast b hb).symm
    · rw [List.mem_singleton.mp ha, List.mem_singleton.mp hb]

theorem numbered_append (first : ℕ) (ts : List Taken) (t : Taken) :
    numbered first (ts ++ [t]) = numbered first ts ++ [(first + ts.length, t.record)] := by
  rw [numbered, List.zipIdx_append, List.map_append]
  rfl

theorem numbered_length (first : ℕ) (ts : List Taken) : (numbered first ts).length = ts.length := by
  rw [numbered, List.length_map, List.length_zipIdx]

namespace MetaIo

variable {s u : MetaIo} {rm : Drive → Bool} {r : Record} {Q : Drive → CString → List (ℕ × Record) → Prop}

/-- The name and the records of every chunk closed on a drive are such. -/
def AllClosed (Q : Drive → CString → List (ℕ × Record) → Prop) (s : MetaIo) : Prop :=
  ∀ d, ∀ c ∈ s.renamed d, Q d c.fname c.records

/-- So are those of the chunk which would be closed now. -/
def Closing (Q : Drive → CString → List (ℕ × Record) → Prop) (s : MetaIo) : Prop :=
  ∀ d, s.isUsed d = true → Q d s.chunkFname s.indexed

theorem AllClosed.of_ops (h : s.AllClosed Q) (hops : u.ops = s.ops) : u.AllClosed Q := by
  intro d c hc
  rw [renamed, hops] at hc
  exact h d c hc

theorem Closing.of_book (h : s.Closing Q) (hbook : SameBook s u) : u.Closing Q := by
  intro d hd
  rw [hbook.isUsed] at hd
  rw [hbook.chunkFname, hbook.indexed]
  exact h d hd

/-- Closing a copy closes a chunk with the records of the index. -/
theorem AllClosed.closeChunk (h : s.AllClosed Q) (hindexed : Q d s.chunkFname s.indexed) (f : ℕ) :
    (s.closeChunk cfg d f).AllClosed Q := by
  intro e c hc
  obtain ⟨fs, hfs⟩ : ∃ fs, s.closeChunk cfg d f = { s with
      fs, ops := if ((((finalizeHeader cfg.format s.recordIndex s.fs f).rewrite f cfg.format.updateHmac).fclose f).rename
        (s.stagingPath d) (s.closing.path d)).1 = true then s.ops ++ [.rename d s.closing] else s.ops } := ⟨_, rfl⟩
  rw [hfs] at hc
  split at hc
  · have hrenamed := renamed_append_rename { s with fs } s.ops s.closing e (d := d)
    rw [hrenamed] at hc
    cases List.mem_append.mp hc with
    | inl hold => exact h e c hold
    | inr hnew =>
      split at hnew
      next heq =>
        rw [List.mem_singleton.mp hnew, heq]
        exact hindexed
      next => cases hnew
  · exact h e c hc

theorem AllClosed.closePrevious (h : s.AllClosed Q) (hclosing : s.Closing Q) (d : Drive) :
    (s.closePrevious cfg d).AllClosed Q := by
  unfold MetaIo.closePrevious
  split
  · split
    next hused => exact h.closeChunk (hclosing d hused) _
    next => exact h
  · exact h

theorem AllClosed.finalizeCopy (h : s.AllClosed Q) (hclosing : s.Closing Q) (d : Drive) :
    (s.finalizeCopy cfg d).AllClosed Q := by
  unfold MetaIo.finalizeCopy
  split
  · split
    next f _ hused =>
      have hclosed : (s.closeChunk cfg d f).AllClosed Q := h.closeChunk (hclosing d hused.1) f
      exact hclosed.of_ops rfl
    next => exact h
  · exact h

theorem AllClosed.metadataChunkFinalize (h : s.AllClosed Q) (hclosing : s.Closing Q) :
    (s.metadataChunkFinalize cfg).AllClosed Q := by
  have hchm : (s.finalizeCopy cfg .chm).AllClosed Q := h.finalizeCopy hclosing .chm
  have hclosing' : (s.finalizeCopy cfg .chm).Closing Q := hclosing.of_book (finalizeCopy_book cfg s .chm).1
  have hrssd : ((s.finalizeCopy cfg .chm).finalizeCopy cfg .rssd).AllClosed Q := hchm.finalizeCopy hclosing' .rssd
  exact hrssd.of_ops rfl

theorem AllClosed.startChunk (h : s.AllClosed Q) (hclosing : s.Closing Q) (r : Record) :
    (s.startChunk cfg r).AllClosed Q := by
  let s₀ : MetaIo := { s with sessionJustStarted := false, driveStatusUpdated := false }
  have h₀ : s₀.AllClosed Q := h.of_ops rfl
  have hclosing₀ : s₀.Closing Q := hclosing
  have hchm : (s₀.closePrevious cfg .chm).AllClosed Q := h₀.closePrevious hclosing₀ .chm
  have hclosing' : (s₀.closePrevious cfg .chm).Closing Q := hclosing₀.of_book (closePrevious_book cfg s₀ .chm).1
  have hclosed : ((s₀.closePrevious cfg .chm).closePrevious cfg .rssd).AllClosed Q := hchm.closePrevious hclosing' .rssd
  have hops : ∀ (v : MetaIo) (e : Drive), (v.openCopy cfg r e).ops = v.ops := by
    intro v e
    unfold openCopy
    split <;> rfl
  have hnamed : (((s₀.closePrevious cfg .chm).closePrevious cfg .rssd).nameChunk (gmtime r.tod)).AllClosed Q := by
    intro d c hc
    rw [nameChunk_renamed] at hc
    exact hclosed d c hc
  exact hnamed.of_ops ((hops _ .rssd).trans (hops _ .chm))

/-- What starting a chunk leaves in the book. -/
theorem startChunk_reset (cfg : Config) (s : MetaIo) (r : Record) :
    (s.startChunk cfg r).indexed = [] ∧ (s.startChunk cfg r).recordIndex = [] ∧
      (s.startChunk cfg r).taken = s.taken ∧ (s.startChunk cfg r).preRec = s.preRec ∧
      (s.startChunk cfg r).isActive = s.isActive ∧ (s.startChunk cfg r).isUsed = s.isUsed ∧
      (s.startChunk cfg r).chunkFname = chunkFnameOf (gmtime r.tod) := by
  let s₀ : MetaIo := { s with sessionJustStarted := false, driveStatusUpdated := false }
  obtain ⟨hclosed, -, -⟩ := closeAll_book cfg s₀
  have hnamed := nameChunk_named (Drive.all.foldl (MetaIo.closePrevious cfg) s₀) (gmtime r.tod)
  have hopened := openAll_book cfg r ((Drive.all.foldl (MetaIo.closePrevious cfg) s₀).nameChunk (gmtime r.tod))
  exact ⟨hopened.indexed.trans hnamed.indexed, hopened.recordIndex.trans hnamed.recordIndex,
    hopened.taken.trans (hnamed.taken.trans hclosed.taken), hopened.preRec.trans (hnamed.preRec.trans hclosed.preRec),
    hopened.isActive.trans (hnamed.isActive.trans hclosed.isActive),
    hopened.isUsed.trans (hnamed.isUsed.trans hclosed.isUsed), hopened.chunkFname.trans hnamed.chunkFname⟩

/-- The records of the index are the last which were dequeued. -/
structure Stretching (cfg : Config) (used : Drive → Bool) (history : List Taken) (changes : ℕ) (s : MetaIo) : Prop where
  active : s.isActive = true
  drives : ∀ d, s.isUsed d = true → Commanded used history d
  preRec : s.preRec = fun d => history.getLast?.map fun t => t.rm d
  taken : s.taken = history.map Taken.entry
  counted : s.recordIndex.length = s.indexed.length
  current : ∃ before ts, history = before ++ ts ∧ s.indexed = numbered before.length ts ∧ ts.Pairwise SameStretch ∧
    NamedAfter s.chunkFname ts ∧ ts.length ≤ cfg.format.indexCapacity ∧ ts.length ≤ max 1 cfg.chunkMaxDuration ∧
    (ts = [] → s.sessionJustStarted = true ∨ cfg.format.indexCapacity = 0) ∧
    ∀ t ∈ ts, (t.changes = changes ∨ s.forwardTimeChangeOccurred = true) ∧ (∀ a ∈ history.getLast?, t.rm = a.rm) ∧
      SameHour s.prevTm (gmtime t.record.tod)
  files : s.AllClosed (OneStretch cfg used history)

theorem stretching_start (cfg : Config) (used : Drive → Bool) : (start used).Stretching cfg used [] 0 where
  active := rfl
  drives _ hd := Or.inr ⟨hd, fun _ ha => by cases ha⟩
  preRec := rfl
  taken := rfl
  counted := rfl
  current := ⟨[], [], rfl, rfl, .nil, namedAfter_nil _, Nat.zero_le _, Nat.zero_le _, fun _ => Or.inl rfl,
    fun _ h => by cases h⟩
  files _ _ h := by cases h

/-- The index is one stretch. -/
theorem Stretching.closing (h : s.Stretching cfg used history changes) : s.Closing (OneStretch cfg used history) := by
  intro d hd
  obtain ⟨before, ts, hhistory, hindexed, hpair, hname, hcapacity, hduration, -⟩ := h.current
  refine ⟨before, ts, [], by rw [hhistory, List.append_nil], hindexed, hpair, fun _ => ?_, hname, hcapacity, hduration⟩
  exact hhistory ▸ h.drives d hd

/-- A record was dequeued: the chunk which was recorded is given up, if the drives changed. -/
structure Follows (cfg : Config) (used : Drive → Bool) (history : List Taken) (t : Taken) (s : MetaIo) : Prop where
  active : s.isActive = true
  drives : ∀ d, s.isUsed d = true → Commanded used (history ++ [t]) d
  preRec : s.preRec = fun d => some (t.rm d)
  taken : s.taken = (history ++ [t]).map Taken.entry
  closing : s.Closing (OneStretch cfg used history)
  files : s.AllClosed (OneStretch cfg used history)

/-- A record which was dequeued may be entered: it goes with the records of the index, and there is room for it. -/
structure Joins (cfg : Config) (used : Drive → Bool) (history : List Taken) (t : Taken) (s : MetaIo) : Prop extends
    Follows cfg used history t s where
  counted : s.recordIndex.length = s.indexed.length
  current : ∃ before ts, history = before ++ ts ∧ s.indexed = numbered before.length ts ∧ (ts ++ [t]).Pairwise SameStretch ∧
    NamedAfter s.chunkFname (ts ++ [t]) ∧ (ts = [] ∨ ts.length < cfg.format.indexCapacity) ∧
    ts.length + 1 ≤ max 1 cfg.chunkMaxDuration
  hour : SameHour s.prevTm (gmtime t.record.tod)

/-- A record which needs no new chunk is of the hour of the last one, with no time change between them. -/
theorem sameHour_of_not_required {tm : Tm} (h : s.isNewChunkRequired cfg tm = false) :
    SameHour s.prevTm tm ∧ s.sessionJustStarted = false ∧ s.isMetaRecordReachMax cfg = false ∧
      s.forwardTimeChangeOccurred = false := by
  simp only [isNewChunkRequired, Bool.or_eq_false_iff] at h
  obtain ⟨⟨⟨hpath, hmax⟩, hchange⟩, -⟩ := h
  simp only [isNewPathRequired, Bool.or_eq_false_iff, bne_eq_false_iff_eq] at hpath
  exact ⟨⟨hpath.1.1.1.2, hpath.1.1.2, hpath.1.2, hpath.2⟩, hpath.1.1.1.1, hmax, hchange⟩

/-- Unless the drives changed, the record has the command of the last one. -/
theorem Stretching.rm_eq (h : s.Stretching cfg used history changes) (hupdated : s.isDriveStatusUpdated rm = false) :
    ∀ a ∈ history.getLast?, a.rm = rm := by
  intro a ha
  rw [isDriveStatusUpdated, h.preRec, Option.mem_def.mp ha] at hupdated
  simp only [Drive.all, List.any_cons, List.any_nil, Bool.or_false, Bool.or_eq_false_iff, Option.map_some, Option.any_some,
    bne_eq_false_iff_eq] at hupdated
  funext d
  cases d with
  | chm => exact hupdated.1
  | rssd => exact hupdated.2

theorem Stretching.followDrives (h : s.Stretching cfg used history changes) (rm : Drive → Bool) (r : Record) :
    (s.followDrives cfg rm r).Follows cfg used history ⟨changes, rm, r⟩ := by
  have htaken : s.taken ++ [(rm, r)] = (history ++ [(⟨changes, rm, r⟩ : Taken)]).map Taken.entry := by
    rw [h.taken, List.map_append]
    rfl
  cases hupdated : s.isDriveStatusUpdated rm with
  | false =>
    rw [followDrives_of_not_updated cfg hupdated]
    exact ⟨h.active, fun d hd => (h.drives d hd).append (h.rm_eq hupdated), rfl, htaken, h.closing, h.files.of_ops rfl⟩
  | true =>
    rw [followDrives_of_updated cfg hupdated]
    let s₀ : MetaIo := { s with
      preRec := fun d => some (rm d)
      driveStatusUpdated := true
      taken := s.taken ++ [(rm, r)] }
    have hfinal := metadataChunkFinalize_finalized cfg s₀
    have hfiles : s₀.AllClosed (OneStretch cfg used history) := h.files.of_ops rfl
    have hclosed : (s₀.metadataChunkFinalize cfg).AllClosed (OneStretch cfg used history) :=
      hfiles.metadataChunkFinalize h.closing
    refine ⟨hfinal.isActive.trans h.active, fun d hd => ?_, hfinal.preRec, hfinal.taken.trans htaken, fun d _ => ?_,
      hclosed.of_ops rfl⟩
    · exact Or.inl ⟨_, by rw [List.getLast?_concat]; rfl, hd⟩
    · have hempty : (s₀.metadataChunkFinalize cfg).indexed = [] := hfinal.indexed
      change OneStretch cfg used history d (s₀.metadataChunkFinalize cfg).chunkFname (s₀.metadataChunkFinalize cfg).indexed
      rw [hempty]
      exact OneStretch.nil cfg used history d _

/-- A record for which a chunk is started is the first of it. -/
theorem Follows.joins (h : u.Follows cfg used history ⟨changes, rm, r⟩) (hdeltat : cfg.deltat ≠ 0)
    (hrequired : u.isNewChunkRequired cfg (gmtime r.tod) = true) :
    (u.ensureChunk cfg r).Joins cfg used history ⟨changes, rm, r⟩ := by
  obtain ⟨duration, hreach⟩ : ∃ duration, u.reachRecord r =
      { u with chunkDurationUsecs := duration, forwardTimeChangeOccurred := false } := ⟨_, rfl⟩
  rw [ensureChunk_of_required hdeltat hrequired, hreach]
  have hreached : Follows cfg used history ⟨changes, rm, r⟩
      { u with chunkDurationUsecs := duration, forwardTimeChangeOccurred := false } :=
    ⟨h.active, h.drives, h.preRec, h.taken, h.closing, h.files.of_ops rfl⟩
  obtain ⟨v, hv⟩ : ∃ v : MetaIo, v = { u with chunkDurationUsecs := duration, forwardTimeChangeOccurred := false } := ⟨_, rfl⟩
  rw [← hv] at hreached ⊢
  obtain ⟨hempty, hnone, htaken, hpre, hactive, hused, hname⟩ := startChunk_reset cfg v r
  have hstarted : (v.startChunk cfg r).Joins cfg used history ⟨changes, rm, r⟩ := by
    refine ⟨⟨hactive.trans hreached.active, fun d hd => hreached.drives d (hused ▸ hd), hpre.trans hreached.preRec,
      htaken.trans hreached.taken, fun d _ => ?_, hreached.files.startChunk hreached.closing r⟩, by rw [hempty, hnone]; rfl,
      ⟨history, [], (List.append_nil history).symm, hempty, ?_⟩, (startChunk_book cfg v r).1⟩
    · rw [hempty]
      exact OneStretch.nil cfg used history d _
    · refine ⟨List.pairwise_singleton _ _, fun t ht => ?_, Or.inl rfl, Nat.le_max_left 1 _⟩
      obtain rfl := Option.some.inj ht
      exact hname
  split
  · obtain ⟨⟨h₁, h₂, h₃, h₄, h₅, h₆⟩, h₇, h₈, h₉⟩ := hstarted
    exact ⟨⟨h₁, h₂, h₃, h₄, h₅, h₆.of_ops rfl⟩, h₇, h₈, h₉⟩
  · exact hstarted

/-- Making sure of a chunk for a record. -/
theorem Stretching.joins (h : s.Stretching cfg used history changes) (hdeltat : cfg.deltat ≠ 0) (rm : Drive → Bool)
    (r : Record) : ((s.followDrives cfg rm r).ensureChunk cfg r).Joins cfg used history ⟨changes, rm, r⟩ := by
  have hfollows := h.followDrives rm r
  cases hrequired : (s.followDrives cfg rm r).isNewChunkRequired cfg (gmtime r.tod) with
  | true => exact hfollows.joins hdeltat hrequired
  | false =>
    have hstarts := (isNewChunkRequired_followDrives cfg s rm r).symm.trans hrequired
    have hupdated : s.isDriveStatusUpdated rm = false := by
      simp only [startsChunk, Bool.or_eq_false_iff] at hstarts
      exact hstarts.1.1.1
    have hlastrm := h.rm_eq hupdated
    obtain ⟨duration, hreach⟩ : ∃ duration, (s.followDrives cfg rm r).reachRecord r =
        { s.followDrives cfg rm r with chunkDurationUsecs := duration, forwardTimeChangeOccurred := false } := ⟨_, rfl⟩
    rw [ensureChunk_of_not_required hdeltat hrequired, hreach]
    rw [followDrives_of_not_updated cfg hupdated] at hfollows hrequired ⊢
    obtain ⟨hhour, hsession, hmax, hchange⟩ := sameHour_of_not_required hrequired
    obtain ⟨before, ts, hhistory, hrecords, hpair, hname, hcapacity, hduration, hnew, hlast⟩ := h.current
    simp only [isMetaRecordReachMax, Bool.or_eq_false_iff, decide_eq_false_iff_not, not_le] at hmax
    rw [h.counted, hrecords, numbered_length] at hmax
    refine ⟨⟨hfollows.active, hfollows.drives, hfollows.preRec, hfollows.taken, hfollows.closing, hfollows.files.of_ops rfl⟩,
      h.counted, ⟨before, ts, hhistory, hrecords, ?_, ?_, Or.inr hmax.1, by omega⟩, hhour⟩
    · refine List.pairwise_append.mpr ⟨hpair, List.pairwise_singleton _ _, fun a ha b hb => ?_⟩
      obtain rfl := List.mem_singleton.mp hb
      obtain ⟨hchanges, hcommand, hsame⟩ := hlast a ha
      refine ⟨hchanges.resolve_right (by rw [hchange]; exact Bool.false_ne_true), ?_, hsame.symm.trans hhour⟩
      have hne : history ≠ [] := fun hnil => by
        rw [hnil] at hhistory
        rw [(List.append_eq_nil_iff.mp hhistory.symm).2] at ha
        cases ha
      have hget := List.getLast?_eq_some_getLast hne
      exact (hcommand _ hget).trans (hlastrm _ hget)
    · cases hts : ts with
      | nil =>
        cases hnew hts with
        | inl hstarted => cases hstarted.symm.trans hsession
        | inr hzero =>
          rw [hzero] at hmax
          exact absurd hmax.1 (Nat.not_lt_zero _)
      | cons first rest =>
        rw [hts] at hname
        exact hname

/-- The records which stretch up to the dequeued one go with it. -/
theorem Joins.members (h : s.Joins cfg used history t) {ts : List Taken} (hpair : (ts ++ [t]).Pairwise SameStretch) :
    ∀ a ∈ ts ++ [t], (a.changes = t.changes ∨ s.forwardTimeChangeOccurred = true) ∧
      (∀ b ∈ (history ++ [t]).getLast?, a.rm = b.rm) ∧ SameHour s.prevTm (gmtime a.record.tod) := by
  intro a ha
  rw [List.getLast?_concat]
  cases List.mem_append.mp ha with
  | inl hold =>
    have hsame := (List.pairwise_append.mp hpair).2.2 a hold t (List.mem_singleton_self t)
    refine ⟨Or.inl hsame.changes, fun b hb => ?_, h.hour.trans hsame.hour.symm⟩
    obtain rfl := Option.some.inj hb
    exact hsame.rm
  | inr hnew =>
    obtain rfl := List.mem_singleton.mp hnew
    refine ⟨Or.inl rfl, fun b hb => ?_, h.hour⟩
    obtain rfl := Option.some.inj hb
    rfl

/-- Entering and writing the record keeps the index one stretch. -/
theorem Joins.record (h : s.Joins cfg used history t) :
    ((s.enterRecord cfg t.record).writeRecord cfg t.record).Stretching cfg used (history ++ [t]) t.changes := by
  obtain ⟨before, ts, hhistory, hrecords, hpair, hname, hcapacity, hduration⟩ := h.current
  have hnumber : s.taken.length - 1 = before.length + ts.length := by
    rw [h.taken, List.length_map, List.length_append, List.length_singleton, hhistory, List.length_append]
    omega
  have hpre : s.preRec = fun d => (history ++ [t]).getLast?.map fun t => t.rm d := by
    rw [List.getLast?_concat]
    exact h.preRec
  have hfiles : s.AllClosed (OneStretch cfg used (history ++ [t])) := fun d c hc => (h.files d c hc).append [t]
  have hmembers := h.members hpair
  obtain ⟨fs, pos, hwritten⟩ := writeRecord_eq cfg (s.enterRecord cfg t.record) t.record
  rw [hwritten]
  by_cases hroom : s.recordIndex.length < cfg.format.indexCapacity
  · rw [enterRecord_of_room hroom]
    have hlength : ts.length < cfg.format.indexCapacity := by
      rw [h.counted, hrecords, numbered_length] at hroom
      exact hroom
    refine ⟨h.active, h.drives, hpre, h.taken, ?_, ⟨before, ts ++ [t], ?_, ?_, hpair, hname, ?_, ?_, ?_, hmembers⟩,
      hfiles.of_ops rfl⟩
    · simp only [List.length_append, h.counted, List.length_singleton]
    · rw [hhistory, List.append_assoc]
    · rw [numbered_append, ← hrecords, ← hnumber]
    · rw [List.length_append, List.length_singleton]
      exact hlength
    · rw [List.length_append, List.length_singleton]
      exact hduration
    · exact fun hnil => absurd hnil (List.append_ne_nil_of_right_ne_nil ts (List.cons_ne_nil t []))
  · -- a chunk which is full was ended, so this index has no room for any record
    obtain rfl : ts = [] := hcapacity.resolve_right (by rw [h.counted, hrecords, numbered_length] at hroom; exact hroom)
    rw [enterRecord, if_neg hroom]
    refine ⟨h.active, h.drives, hpre, h.taken, h.counted, ⟨history ++ [t], [], ?_, hrecords, ?_⟩, hfiles.of_ops rfl⟩
    · rw [List.append_nil]
    · refine ⟨.nil, namedAfter_nil _, Nat.zero_le _, Nat.zero_le _, fun _ => Or.inr ?_, fun a ha => by cases ha⟩
      rw [h.counted, hrecords] at hroom
      exact Nat.eq_zero_of_not_pos hroom

theorem Stretching.recordRound (h : s.Stretching cfg used history changes) (hdeltat : cfg.deltat ≠ 0) (rm : Drive → Bool)
    (r : Record) : (s.recordRound cfg rm r).Stretching cfg used (history ++ [⟨changes, rm, r⟩]) changes :=
  (h.joins hdeltat rm r).record

/-- An idle poll which ends the chunk leaves an index without records, and the next record starts a session. -/
theorem Stretching.idleRound (h : s.Stretching cfg used history changes) (now : Timespec) :
    (s.idleRound cfg now).Stretching cfg used history changes := by
  obtain ⟨duration, hduration⟩ : ∃ duration, durationUsecs s.t0 now.nanoseconds = duration := ⟨_, rfl⟩
  have hpolled : Stretching cfg used history changes { s with chunkDurationUsecs := duration } :=
    ⟨h.active, h.drives, h.preRec, h.taken, h.counted, h.current, h.files.of_ops rfl⟩
  unfold MetaIo.idleRound
  rw [hduration]
  split
  · dsimp only
    split
    · have hfinal := metadataChunkFinalize_finalized cfg { s with chunkDurationUsecs := duration }
      refine ⟨hfinal.isActive.trans h.active, fun d hd => h.drives d (hfinal.isUsed ▸ hd), hfinal.preRec.trans h.preRec,
        hfinal.taken.trans h.taken, rfl, ⟨history, [], (List.append_nil history).symm, rfl, ?_⟩,
        (hpolled.files.metadataChunkFinalize hpolled.closing).of_ops rfl⟩
      exact ⟨.nil, namedAfter_nil _, Nat.zero_le _, Nat.zero_le _, fun _ => Or.inl rfl, fun a ha => by cases ha⟩
    · exact hpolled
  · exact h

/-- A time change parts the next record from those of the index. -/
theorem Stretching.forwardTimeChange (h : s.Stretching cfg used history changes) :
    Stretching cfg used history (changes + 1) { s with forwardTimeChangeOccurred := true } := by
  obtain ⟨before, ts, hhistory, hrecords, hpair, hname, hcapacity, hduration, hnew, hlast⟩ := h.current
  refine ⟨h.active, h.drives, h.preRec, h.taken, h.counted,
    ⟨before, ts, hhistory, hrecords, hpair, hname, hcapacity, hduration, hnew, ?_⟩, h.files.of_ops rfl⟩
  exact fun t ht => ⟨Or.inr rfl, (hlast t ht).2⟩

/-- What the thread does with the other events while it runs. -/
theorem step_idle (h : s.isActive = true) (now : Timespec) : s.step cfg (.idle now) = s.idleRound cfg now := if_pos h

theorem step_forwardTimeChange (h : s.isActive = true) :
    s.step cfg .forwardTimeChange = { s with forwardTimeChangeOccurred := true } := if_pos h

theorem step_stop (h : s.isActive = true) :
    s.step cfg .stop = { s.metadataChunkFinalize cfg with isActive := false } := if_pos h

/-- A run of the thread closes chunks each of which is one stretch. -/
theorem Stretching.run (h : s.Stretching cfg used history changes) (hdeltat : cfg.deltat ≠ 0) (es : List Event) :
    (run (MetaIo.step cfg) s es).AllClosed (OneStretch cfg used (history ++ takenFrom changes es)) := by
  induction es generalizing s history changes with
  | nil =>
    rw [takenFrom, List.append_nil]
    exact h.files
  | cons e es ih =>
    rw [run_cons]
    cases e with
    | record rm r =>
      rw [step_record h.active, takenFrom, List.append_cons]
      exact ih (h.recordRound hdeltat rm r)
    | idle now =>
      rw [step_idle h.active]
      exact ih (h.idleRound now)
    | forwardTimeChange =>
      rw [step_forwardTimeChange h.active]
      exact ih h.forwardTimeChange
    | stop =>
      have hstopped : ∀ es, Foundation.run (MetaIo.step cfg) { s.metadataChunkFinalize cfg with isActive := false } es =
          { s.metadataChunkFinalize cfg with isActive := false } := by
        intro es
        induction es with
        | nil => rfl
        | cons e es ih => exact ih
      rw [step_stop h.active, hstopped, takenFrom, List.append_nil]
      exact (h.files.metadataChunkFinalize h.closing).of_ops rfl

/-- No copy is open, and nothing was done to a directory. -/
structure Unopened (s : MetaIo) : Prop where
  fp : ∀ d, s.fp d = none
  ops : s.ops = []

theorem Unopened.metadataChunkFinalize (h : s.Unopened) : (s.metadataChunkFinalize cfg).Unopened := by
  have hnone : ∀ d, s.finalizeCopy cfg d = s := fun d => by rw [finalizeCopy, h.fp d]
  have hsame : Drive.all.foldl (MetaIo.finalizeCopy cfg) s = s := by
    simp only [Drive.all, List.foldl_cons, List.foldl_nil, hnone]
  exact ⟨fun d => (congrFun (congrArg MetaIo.fp hsame) d).trans (h.fp d), (congrArg MetaIo.ops hsame).trans h.ops⟩

theorem Unopened.recordRound (h : s.Unopened) (hdeltat : cfg.deltat = 0) (rm : Drive → Bool) (r : Record) :
    (s.recordRound cfg rm r).Unopened := by
  have hfollowed : (s.followDrives cfg rm r).Unopened := by
    cases hupdated : s.isDriveStatusUpdated rm with
    | false =>
      rw [followDrives_of_not_updated cfg hupdated]
      exact ⟨h.fp, h.ops⟩
    | true =>
      rw [followDrives_of_updated cfg hupdated]
      let s₀ : MetaIo := { s with
        preRec := fun d => some (rm d)
        driveStatusUpdated := true
        taken := s.taken ++ [(rm, r)] }
      have hfinal : (s₀.metadataChunkFinalize cfg).Unopened := Unopened.metadataChunkFinalize ⟨h.fp, h.ops⟩
      exact ⟨hfinal.fp, hfinal.ops⟩
  have hentered : ((s.followDrives cfg rm r).enterRecord cfg r).Unopened := by
    unfold enterRecord
    split
    · exact ⟨hfollowed.fp, hfollowed.ops⟩
    · exact hfollowed
  obtain ⟨fs, pos, hwritten⟩ := writeRecord_eq cfg ((s.followDrives cfg rm r).enterRecord cfg r) r
  rw [MetaIo.recordRound, ensureChunk_of_deltat hdeltat, hwritten]
  exact ⟨hentered.fp, hentered.ops⟩

/-- Without a difference between the clocks no chunk is ever opened. -/
theorem unopened_of_deltat (hdeltat : cfg.deltat = 0) (used : Drive → Bool) (es : List Event) :
    (run (MetaIo.step cfg) (start used) es).Unopened := by
  refine run_invariant_of_step (I := Unopened) (fun s e h => ?_) ⟨fun _ => rfl, rfl⟩ es
  unfold MetaIo.step
  split
  · cases e with
    | record rm r => exact h.recordRound hdeltat rm r
    | idle now =>
      change (s.idleRound cfg now).Unopened
      unfold MetaIo.idleRound
      split
      · dsimp only
        split
        · have hfinal : (metadataChunkFinalize cfg { s with
              chunkDurationUsecs := durationUsecs s.t0 now.nanoseconds }).Unopened :=
            Unopened.metadataChunkFinalize ⟨h.fp, h.ops⟩
          exact ⟨hfinal.fp, hfinal.ops⟩
        · exact ⟨h.fp, h.ops⟩
      · exact h
    | forwardTimeChange => exact ⟨h.fp, h.ops⟩
    | stop =>
      have hfinal : (s.metadataChunkFinalize cfg).Unopened := h.metadataChunkFinalize
      exact ⟨hfinal.fp, hfinal.ops⟩
  · exact h

/-- In every run of the thread each closed chunk is one stretch of the records which were dequeued. -/
theorem closed_oneStretch (cfg : Config) (used : Drive → Bool) (es : List Event) :
    (run (MetaIo.step cfg) (start used) es).AllClosed (OneStretch cfg used (takenFrom 0 es)) := by
  by_cases hdeltat : cfg.deltat = 0
  · intro d c hc
    rw [renamed, (unopened_of_deltat hdeltat used es).ops] at hc
    cases hc
  · exact (stretching_start cfg used).run hdeltat es

/-- Two records, a forward time change and another record: the third is in a chunk of its own. -/
example :
    ((run (MetaIo.step sampleConfig) (start fun _ => true) [.record (fun _ => true) (sampleRecord 1),
      .record (fun _ => true) (sampleRecord 2), .forwardTimeChange, .record (fun _ => true) (sampleRecord 3),
      .idle ⟨3, 5000⟩, .stop]).renamed .chm).map (fun c => c.records.map Prod.fst) = [[0, 1], [2]] := by
  decide +kernel

end MetaIo

end RecordingAgent.Metarec
