import RecordingAgent.Metarec.Copies

/-!
# Index offsets

The position that goes into the index is asked of the first file pointer the thread keeps of
its own. It is right as long as that pointer belongs to a drive in use, and it is not when the
crash-hardened memory is dropped while its pointer is still set, or both drives are dropped:
the pointer is then closed, or the copy is no longer written.

`Coherent` relates the index, the position and the copies; a round which keeps the pointers to
drives in use keeps it.
-/

namespace RecordingAgent.Metarec

open Foundation FileStore

namespace MetaIo

variable {cfg : Config} {s t : MetaIo} {d e : Drive} {rs : List Record} {r : Record} {rm : Drive → Bool}

/-- The records whose entries are in the index. -/
def indexedRecords (s : MetaIo) : List Record := s.indexed.map Prod.snd

/-- A record which changes the commanded drives drops neither the crash-hardened memory while the
thread has a pointer to its copy, nor both drives while it has one to the other copy. -/
def KeepsPointers (s : MetaIo) : Event → Prop
  | .record rm _ => s.isDriveStatusUpdated rm = true →
      (rm .chm = false → s.out .chm = none) ∧
        (rm .chm = false → rm .rssd = false → s.out .rssd = none)
  | _ => True

instance (s : MetaIo) (e : Event) : Decidable (s.KeepsPointers e) := by
  unfold KeepsPointers; split <;> infer_instance

/-- No closed file was used, and each index entry has the offset at which the payload of its record
starts in every copy of the chunk on a drive in use. -/
structure OffsetsRight (cfg : Config) (s : MetaIo) : Prop where
  unmisused : s.fs.misused = false
  counted : s.recordIndex.length = s.indexedRecords.length
  starts : ∀ d f, s.isUsed d = true → s.fp d = some f → s.recordIndex ≠ [] →
    (∃ sec usec, s.fs.contents f = cfg.format.openImage sec usec s.indexedRecords) ∧
      ∀ k e, s.recordIndex[k]? = some e →
        e.byteoffset = cfg.format.payloadOffset s.indexedRecords k

/-- The pointers the thread asks or writes belong to drives in use. -/
structure PointersUsed (s : MetaIo) : Prop where
  chm : s.isUsed .chm = false → s.out .chm = none
  rssd : s.isUsed .chm = false → s.isUsed .rssd = false → s.out .rssd = none

/-- A chunk is being recorded: each drive in use has a copy with the records of the index, and the
thread knows where the next payload goes. -/
structure Live (cfg : Config) (s : MetaIo) (rs : List Record) : Prop where
  deltat : cfg.deltat ≠ 0
  copies : ∀ d, s.isUsed d = true → s.HasCopy cfg d rs
  recordIndex : (∃ d, s.isUsed d = true) → s.recordIndex = cfg.format.indexOf rs
  pos : (∃ d, s.isUsed d = true) → s.pos = cfg.format.payloadOffset rs rs.length

/-- No chunk is being recorded; the next record starts one. -/
structure Waiting (cfg : Config) (s : MetaIo) : Prop where
  sessionJustStarted : s.sessionJustStarted = true
  out : ∀ d, s.out d = none
  indexed : cfg.deltat ≠ 0 → s.indexed = []
  fp : cfg.deltat = 0 → ∀ d, s.fp d = none

/-- The index, the position and the copies of the chunk agree. -/
structure Coherent (cfg : Config) (s : MetaIo) : Prop where
  orderly : s.Orderly fun _ => True
  counted : s.recordIndex.length = s.indexed.length
  room : s.indexed.length ≤ cfg.format.indexCapacity
  pointers : s.PointersUsed
  phase : s.Live cfg s.indexedRecords ∨ s.Waiting cfg

theorem coherent_start (cfg : Config) (used : Drive → Bool) : (start used).Coherent cfg where
  orderly := ⟨⟨nofun, nofun, nofun⟩, rfl, nofun⟩
  counted := rfl
  room := Nat.zero_le _
  pointers := ⟨fun _ => rfl, fun _ _ => rfl⟩
  phase := .inr ⟨rfl, fun _ => rfl, fun _ => rfl, fun _ _ => rfl⟩

/-- Where the index, the position and the copies agree, the offsets are right. -/
theorem Coherent.offsetsRight (h : s.Coherent cfg) : s.OffsetsRight cfg where
  unmisused := h.orderly.unmisused
  counted := by rw [indexedRecords, List.length_map, h.counted]
  starts d f hused hf hindex := by
    cases h.phase with
    | inl hlive =>
      obtain ⟨g, sec, usec, hg, -, hat⟩ := hlive.copies d hused
      obtain rfl : g = f := by simpa [hg] using hf
      refine ⟨⟨sec, usec, hat.contents⟩, fun k e he => ?_⟩
      rw [hlive.recordIndex ⟨d, hused⟩, ChunkFormat.indexOf_getElem?] at he
      obtain ⟨r, -, rfl⟩ := Option.map_eq_some_iff.mp he
      rfl
    | inr hwaiting =>
      by_cases hdeltat : cfg.deltat = 0
      · simp [hwaiting.fp hdeltat d] at hf
      · have hempty : s.recordIndex = [] := by
          rw [← List.length_eq_zero_iff, h.counted, hwaiting.indexed hdeltat]
          rfl
        exact absurd hempty hindex

/-- Writing a record appends it to the copy of a drive in use. -/
theorem writeCopy_hasCopy (hwf : s.fs.WellFormed) (h : s.HasCopy cfg d rs) (hused : s.isUsed d = true)
    (r : Record) : (s.writeCopy r d).HasCopy cfg d (rs ++ [r]) ∧
      Confined {s.stagingPath d} s.fs (s.writeCopy r d).fs := by
  obtain ⟨f, sec, usec, hf, hout, hat⟩ := h
  have hend : (cfg.format.openImage sec usec rs).length = cfg.format.payloadOffset rs rs.length :=
    ChunkFormat.openImage_length
  have hwrite := hat.fwrite r.payload
  rw [← hend, writeAt_length, ← ChunkFormat.openImage_append, hend,
    ← ChunkFormat.payloadOffset_append] at hwrite
  have hwrite' := (localTo_fwrite s.fs f r.payload).confined hwf hat
  unfold writeCopy
  rw [hout, hused]
  refine ⟨⟨f, sec, usec, hf, hout, ?_⟩, hwrite'⟩
  rw [List.length_append]
  exact hwrite

theorem writeCopy_of_unused (h : s.isUsed d = false) (r : Record) : s.writeCopy r d = s := by
  unfold writeCopy
  split
  · rw [if_neg (by simp [h])]
  · rfl

theorem writeCopy_book (r : Record) (s : MetaIo) (d : Drive) :
    SameBook s (s.writeCopy r d) ∧ (s.writeCopy r d).fp = s.fp ∧ (s.writeCopy r d).out = s.out := by
  unfold writeCopy
  split
  · split
    · exact ⟨⟨rfl, rfl, rfl, rfl, rfl, rfl, rfl, rfl, rfl, rfl, rfl, rfl, rfl, rfl⟩, rfl, rfl⟩
    · exact ⟨.refl s, rfl, rfl⟩
  · exact ⟨.refl s, rfl, rfl⟩

/-- Writing the copy of one drive adds the record there and leaves the others and the data directories. -/
theorem writeCopy_copies (h : s.Orderly fun _ => True) {R : Drive → List Record}
    (hcopies : ∀ e, s.isUsed e = true → s.HasCopy cfg e (R e)) (r : Record) (d : Drive) :
    (s.writeCopy r d).Orderly (fun _ => True) ∧ (∀ e, s.isUsed e = true →
      (s.writeCopy r d).HasCopy cfg e (Function.update R d (R d ++ [r]) e)) ∧
      ∀ p bytes, p.area = .data → s.fs.Stored p bytes → (s.writeCopy r d).fs.Stored p bytes := by
  cases hd : s.isUsed d with
  | false =>
    rw [writeCopy_of_unused hd]
    refine ⟨h, fun e he => ?_, fun _ _ _ hstored => hstored⟩
    have hed : e ≠ d := by
      rintro rfl
      simp [hd] at he
    rw [Function.update_of_ne hed]
    exact hcopies e he
  | true =>
    obtain ⟨hcopy, hfs⟩ := writeCopy_hasCopy h.wellFormed (hcopies d hd) hd r
    obtain ⟨hbook, hfp, hout⟩ := writeCopy_book r s d
    have hothers := h.confined (e := d) (hfs.mono (by simp)) fun e _ => congrFun hfp e
    refine ⟨⟨hothers.wellFormed, hothers.unmisused, fun e g _ hg => ?_⟩, fun e he => ?_, fun p bytes hp => ?_⟩
    · by_cases hed : e = d
      · subst hed
        obtain ⟨f, sec, usec, hf, -, hat⟩ := hcopy
        obtain rfl : f = g := by simpa [hf] using hg
        exact ⟨_, _, _, hat⟩
      · exact hothers.streams e g ⟨trivial, hed⟩ hg
    · by_cases hed : e = d
      · subst hed
        rw [Function.update_self]
        exact hcopy
      · rw [Function.update_of_ne hed]
        exact (hcopies e he).confined hfs (by simp [hed]) (congrFun hfp e) (congrFun hout e) hbook.chunkFname
    · refine hfs.stored p bytes fun hmem => ?_
      rw [Set.mem_singleton_iff.mp hmem] at hp
      cases hp

/-- Writing the record adds it to the copy of every drive in use. -/
theorem writeMetadata_copies (hn : cfg.nCopies = 2) (h : s.Orderly fun _ => True)
    (hcopies : ∀ d, s.isUsed d = true → s.HasCopy cfg d rs) (r : Record) :
    (s.writeMetadata cfg r).Orderly (fun _ => True) ∧ (∀ d, s.isUsed d = true →
      (s.writeMetadata cfg r).HasCopy cfg d (rs ++ [r])) ∧ SameBook s (s.writeMetadata cfg r) ∧
      (s.writeMetadata cfg r).fp = s.fp ∧ (s.writeMetadata cfg r).out = s.out ∧
      ∀ p bytes, p.area = .data → s.fs.Stored p bytes → (s.writeMetadata cfg r).fs.Stored p bytes := by
  have hloop : s.writeMetadata cfg r = (s.writeCopy r .chm).writeCopy r .rssd := by
    rw [writeMetadata, hn]
    rfl
  obtain ⟨hbook₁, hfp₁, hout₁⟩ := writeCopy_book r s .chm
  obtain ⟨hbook₂, hfp₂, hout₂⟩ := writeCopy_book r (s.writeCopy r .chm) .rssd
  obtain ⟨h₁, hcopies₁, hkept₁⟩ := writeCopy_copies h (R := fun _ => rs) hcopies r .chm
  rw [← hbook₁.isUsed] at hcopies₁
  obtain ⟨h₂, hcopies₂, hkept₂⟩ := writeCopy_copies h₁ hcopies₁ r .rssd
  rw [hloop]
  refine ⟨h₂, fun d hd => ?_, hbook₁.trans hbook₂, hfp₂.trans hfp₁, hout₂.trans hout₁,
    fun p bytes hp hstored => hkept₂ p bytes hp (hkept₁ p bytes hp hstored)⟩
  have hcopy := hcopies₂ d (by rw [hbook₁.isUsed]; exact hd)
  cases d <;> simpa using hcopy

/-- The first pointer of the thread is that of a copy on a drive in use, if there is one. -/
theorem firstOut_of_used (h : s.PointersUsed) (hcopies : ∀ d, s.isUsed d = true → s.HasCopy cfg d rs)
    {f : ℕ} (hf : s.firstOut = some f) : ∃ d, s.isUsed d = true ∧ s.out d = some f := by
  unfold firstOut at hf
  cases hchm : s.isUsed .chm with
  | true =>
    obtain ⟨g, -, -, -, hout, -⟩ := hcopies .chm hchm
    rw [hout] at hf
    exact ⟨.chm, hchm, hout.trans hf⟩
  | false =>
    rw [h.chm hchm] at hf
    have hout : s.out .rssd = some f := hf
    cases hrssd : s.isUsed .rssd with
    | true => exact ⟨.rssd, hrssd, hout⟩
    | false =>
      rw [h.rssd hchm hrssd] at hout
      cases hout

/-- Without a pointer no drive is in use while a chunk is recorded. -/
theorem unused_of_firstOut (hcopies : ∀ d, s.isUsed d = true → s.HasCopy cfg d rs)
    (hf : s.firstOut = none) (d : Drive) : s.isUsed d = false := by
  unfold firstOut at hf
  cases hd : s.isUsed d with
  | false => rfl
  | true =>
    obtain ⟨f, -, -, -, hout, -⟩ := hcopies d hd
    cases d with
    | chm => simp [hout] at hf
    | rssd =>
      cases hchm : s.out .chm <;> simp [hchm, hout] at hf

/-- A live chunk which has room for a record in its index. -/
structure Ready (cfg : Config) (s : MetaIo) : Prop where
  orderly : s.Orderly fun _ => True
  counted : s.recordIndex.length = s.indexed.length
  pointers : s.PointersUsed
  live : s.Live cfg s.indexedRecords
  room : s.indexed.length < cfg.format.indexCapacity
  sessionJustStarted : s.sessionJustStarted = false

/-- Entering and writing a record of a live chunk with room in its index. -/
theorem Ready.record (h : s.Ready cfg) (hn : cfg.nCopies = 2) (r : Record) :
    ((s.enterRecord cfg r).writeRecord cfg r).Coherent cfg := by
  obtain ⟨horderly, hcounted, hpointers, hlive, hroom, -⟩ := h
  obtain ⟨rs, hrs⟩ : ∃ rs, s.indexedRecords = rs := ⟨_, rfl⟩
  rw [hrs] at hlive
  have hlength : s.indexed.length = rs.length := by rw [← hrs, indexedRecords, List.length_map]
  rw [enterRecord_of_room (hcounted ▸ hroom)]
  set u : MetaIo := { s with
    recordIndex := s.recordIndex ++ [cfg.format.indexEntry r s.pos]
    indexed := s.indexed ++ [(s.taken.length - 1, r)] } with hu
  have hcopies : ∀ d, u.isUsed d = true → u.HasCopy cfg d rs := fun d hd => hlive.copies d hd
  have hindex : (∃ d, u.isUsed d = true) → u.recordIndex = cfg.format.indexOf (rs ++ [r]) := by
    intro hused
    rw [ChunkFormat.indexOf_append, ← hlive.recordIndex hused, ← hlive.pos hused]
  have hrecords : u.indexedRecords = rs ++ [r] := by simp [hu, indexedRecords, ← hrs]
  have hcounted' : u.recordIndex.length = u.indexed.length := by simp [hu, hcounted]
  have hroom' : u.indexed.length ≤ cfg.format.indexCapacity := by
    simp [hu]
    omega
  have hpointers' : u.PointersUsed := ⟨hpointers.chm, hpointers.rssd⟩
  have horderly' : u.Orderly fun _ => True := horderly.of_eq rfl rfl
  clear_value u
  unfold writeRecord
  cases hout : u.firstOut with
  | none =>
    have hunused : ∀ d, u.isUsed d = false := unused_of_firstOut hcopies hout
    have hnone : ¬ ∃ d, u.isUsed d = true := by simp [hunused]
    have hlive' : u.Live cfg u.indexedRecords :=
      ⟨hlive.deltat, fun d hd => absurd ⟨d, hd⟩ hnone, fun h => absurd h hnone, fun h => absurd h hnone⟩
    exact ⟨horderly', hcounted', hroom', hpointers', .inl hlive'⟩
  | some f =>
    obtain ⟨d, hd, hdf⟩ := firstOut_of_used hpointers' hcopies hout
    obtain ⟨hwritten, hcopies₂, hbook, hfp, houts, -⟩ := writeMetadata_copies hn horderly' hcopies r
    obtain ⟨g, sec, usec, hg, hgout, hat⟩ := hcopies₂ d hd
    obtain rfl : g = f := by
      rw [houts, hdf] at hgout
      exact (Option.some.inj hgout).symm
    have hfs : Confined ∅ (u.writeMetadata cfg r).fs ((u.writeMetadata cfg r).fs.ftell g).2 :=
      hat.ftell_confined hwritten.wellFormed ∅
    have hend : (rs ++ [r]).length ≤ cfg.format.indexCapacity := by
      rw [List.length_append, ← hlength]
      exact hroom
    have hrecords' : (u.writeMetadata cfg r).indexedRecords = rs ++ [r] :=
      (congrArg (List.map Prod.snd) hbook.indexed).trans hrecords
    refine ⟨⟨hfs.wellFormed, hfs.misused.trans hwritten.unmisused, ?_⟩, ?_, ?_, ?_, .inl ?_⟩
    · intro e g' _ hg'
      obtain ⟨name, bytes, pos, hat'⟩ := hwritten.streams e g' trivial hg'
      exact ⟨name, bytes, pos, hfs.at_ _ _ _ _ (by simp) hat'⟩
    · rw [hbook.recordIndex, hbook.indexed]
      exact hcounted'
    · rw [hbook.indexed]
      exact hroom'
    · constructor
      · rw [hbook.isUsed, houts]
        exact hpointers'.chm
      · rw [hbook.isUsed, houts]
        exact hpointers'.rssd
    · change Live cfg _ (u.writeMetadata cfg r).indexedRecords
      rw [hrecords']
      refine ⟨hlive.deltat, fun e he => ?_, fun hused => ?_, fun _ => ?_⟩
      · have hcopy := hcopies₂ e (by rw [← hbook.isUsed]; exact he)
        exact hcopy.confined hfs (by simp) rfl rfl rfl
      · exact hbook.recordIndex.trans (hindex (hbook.isUsed ▸ hused))
      · change ((u.writeMetadata cfg r).fs.ftell g).1 % 2 ^ 32 = _
        rw [hat.ftell]
        exact Nat.mod_eq_of_lt ((ChunkFormat.payloadOffset_lt hend _).trans (by decide))

/-- Without a pointer nothing is written. -/
theorem writeRecord_of_out (h : ∀ d, s.out d = none) (cfg : Config) (r : Record) :
    s.writeRecord cfg r = s := by
  have hnone : s.firstOut = none := by simp [firstOut, h]
  rw [writeRecord, hnone]

/-- Entering a record while nothing can be recorded. -/
theorem Waiting.record (hwaiting : s.Waiting cfg) (hdeltat : cfg.deltat = 0)
    (horderly : s.Orderly fun _ => True) (hpointers : s.PointersUsed)
    (hcounted : s.recordIndex.length = s.indexed.length)
    (hroom : s.indexed.length ≤ cfg.format.indexCapacity) (r : Record) :
    ((s.enterRecord cfg r).writeRecord cfg r).Coherent cfg := by
  by_cases hlt : s.recordIndex.length < cfg.format.indexCapacity
  · rw [enterRecord_of_room hlt, writeRecord_of_out (by exact hwaiting.out)]
    refine ⟨horderly.of_eq rfl rfl, ?_, ?_,
      ⟨hpointers.chm, hpointers.rssd⟩, .inr ?_⟩
    · simp [hcounted]
    · simp only [List.length_append, List.length_singleton]
      omega
    · exact ⟨hwaiting.sessionJustStarted, hwaiting.out, fun h => absurd hdeltat h, hwaiting.fp⟩
  · have henter : s.enterRecord cfg r = s := by rw [enterRecord, if_neg hlt]
    rw [henter, writeRecord_of_out hwaiting.out]
    exact ⟨horderly, hcounted, hroom, hpointers, .inr hwaiting⟩

/-- A chunk that was just started is ready for its first record, with the position after its header if it
has a copy. -/
theorem Started.ready (h : Started cfg s t) (hdeltat : cfg.deltat ≠ 0) (hpointers : s.PointersUsed) :
    (if Drive.all.any s.isUsed then { t with pos := cfg.format.bodyOffset } else t).Ready cfg := by
  set u : MetaIo := if Drive.all.any s.isUsed then { t with pos := cfg.format.bodyOffset } else t
    with hu
  have hpos : ∃ pos, u = { t with pos } ∧ ((∃ d, s.isUsed d = true) → pos = cfg.format.bodyOffset) := by
    rw [hu]
    split
    · exact ⟨_, rfl, fun _ => rfl⟩
    · rename_i hany
      refine ⟨t.pos, rfl, ?_⟩
      rintro ⟨d, hd⟩
      refine absurd ?_ hany
      cases d <;> simp [Drive.all, hd]
  obtain ⟨pos, heq, hpos⟩ := hpos
  clear_value u
  subst heq
  have hunused : ∀ d, t.isUsed d = false → t.out d = s.out d := fun d hd =>
    (h.unused d (h.isUsed ▸ hd)).2
  have hempty : MetaIo.indexedRecords { t with pos } = [] := congrArg (List.map Prod.snd) h.indexed
  constructor
  · exact h.orderly.of_eq rfl rfl
  · exact (congrArg List.length h.recordIndex).trans (congrArg List.length h.indexed).symm
  · refine ⟨fun hchm => ?_, fun hchm hrssd => ?_⟩
    · exact (hunused .chm hchm).trans (hpointers.chm (h.isUsed ▸ hchm))
    · exact (hunused .rssd hrssd).trans (hpointers.rssd (h.isUsed ▸ hchm) (h.isUsed ▸ hrssd))
  · rw [hempty]
    refine ⟨hdeltat, fun d hd => ?_, fun _ => h.recordIndex, ?_⟩
    · exact h.fresh d (h.isUsed ▸ hd)
    · rintro ⟨d, hd⟩
      exact hpos ⟨d, h.isUsed ▸ hd⟩
  · exact (congrArg List.length h.indexed).trans_lt ChunkFormat.indexCapacity_pos
  · exact h.sessionJustStarted

/-- The state in which a dequeued record looks for its chunk. -/
structure Followed (cfg : Config) (s : MetaIo) : Prop where
  orderly : s.Orderly fun _ => True
  counted : s.recordIndex.length = s.indexed.length
  room : s.indexed.length ≤ cfg.format.indexCapacity
  pointers : s.PointersUsed
  phase : (s.driveStatusUpdated = true ∧ cfg.deltat ≠ 0) ∨ s.Live cfg s.indexedRecords ∨ s.Waiting cfg

/-- Following the commanded drives keeps the pointers to drives in use. -/
theorem Coherent.followDrives (h : s.Coherent cfg) (hkeeps : s.KeepsPointers (.record rm r)) :
    (s.followDrives cfg rm r).Followed cfg := by
  unfold MetaIo.followDrives
  cases hupdated : s.isDriveStatusUpdated rm with
  | false =>
    refine ⟨h.orderly.of_eq rfl rfl, h.counted, h.room,
      ⟨h.pointers.chm, h.pointers.rssd⟩, .inr ?_⟩
    cases h.phase with
    | inl hlive => exact .inl ⟨hlive.deltat, hlive.copies, hlive.recordIndex, hlive.pos⟩
    | inr hwait => exact .inr ⟨hwait.sessionJustStarted, hwait.out, hwait.indexed, hwait.fp⟩
  | true =>
    let s₀ : MetaIo := { s with
      preRec := fun d => some (rm d)
      driveStatusUpdated := true
      taken := s.taken ++ [(rm, r)] }
    have hfinal : Finalized s₀ (s₀.metadataChunkFinalize cfg) := metadataChunkFinalize_finalized cfg s₀
    have horderly : (s₀.metadataChunkFinalize cfg).Orderly fun _ => True :=
      Orderly.metadataChunkFinalize (s := s₀)
        (h.orderly.of_eq rfl rfl) cfg
    obtain ⟨hchm, hrssd⟩ := hkeeps hupdated
    refine ⟨horderly.of_eq rfl rfl, ?_, ?_, ⟨?_, ?_⟩, ?_⟩
    · exact (congrArg List.length hfinal.recordIndex).trans (congrArg List.length hfinal.indexed).symm
    · exact (congrArg List.length hfinal.indexed).trans_le (Nat.zero_le _)
    · exact fun hu => (congrFun hfinal.out .chm).trans (hchm hu)
    · exact fun hu hu' => (congrFun hfinal.out .rssd).trans (hrssd hu hu')
    · by_cases hdeltat : cfg.deltat = 0
      · cases h.phase with
        | inl hlive => exact absurd hdeltat hlive.deltat
        | inr hwait =>
          refine .inr (.inr ⟨?_, fun d => ?_, fun hne => absurd hdeltat hne, fun _ d => ?_⟩)
          · exact hfinal.sessionJustStarted.trans hwait.sessionJustStarted
          · exact (congrFun hfinal.out d).trans (hwait.out d)
          · exact hfinal.fp d (hwait.fp hdeltat d)
      · exact .inl ⟨hfinal.driveStatusUpdated, hdeltat⟩

/-- A dequeued record finds or starts a chunk with room for it. -/
theorem Followed.ensureChunk (h : s.Followed cfg) (hdeltat : cfg.deltat ≠ 0) (r : Record) :
    (s.ensureChunk cfg r).Ready cfg := by
  -- The duration is generalised: it plays no part here.
  obtain ⟨duration, hreach⟩ : ∃ duration, s.reachRecord r =
      { s with chunkDurationUsecs := duration, forwardTimeChangeOccurred := false } := ⟨_, rfl⟩
  let u : MetaIo := { s with chunkDurationUsecs := duration, forwardTimeChangeOccurred := false }
  have horderly : u.Orderly fun _ => True :=
    h.orderly.of_eq rfl rfl
  cases hrequired : s.isNewChunkRequired cfg (gmtime r.tod) with
  | true =>
    rw [ensureChunk_of_required hdeltat hrequired, hreach]
    have hstarted : Started cfg u (u.startChunk cfg r) := startChunk_started horderly cfg r
    exact hstarted.ready hdeltat ⟨h.pointers.chm, h.pointers.rssd⟩
  | false =>
    rw [ensureChunk_of_not_required hdeltat hrequired, hreach]
    simp only [isNewChunkRequired, isNewPathRequired, isMetaRecordReachMax, Bool.or_eq_false_iff,
      decide_eq_false_iff_not] at hrequired
    have hlive : s.Live cfg s.indexedRecords := by
      rcases h.phase with ⟨hupdated, -⟩ | hlive | hwaiting
      · simp [hupdated] at hrequired
      · exact hlive
      · simp [hwaiting.sessionJustStarted] at hrequired
    have hroom : s.indexed.length < cfg.format.indexCapacity := by
      rw [← h.counted]
      exact Nat.lt_of_not_ge hrequired.1.1.2.1
    exact ⟨horderly, h.counted, ⟨h.pointers.chm, h.pointers.rssd⟩,
      ⟨hlive.deltat, hlive.copies, hlive.recordIndex, hlive.pos⟩, hroom, hrequired.1.1.1.1.1.1.1⟩

/-- A dequeued record is recorded in its chunk. -/
theorem Followed.record (h : s.Followed cfg) (hn : cfg.nCopies = 2) (r : Record) :
    (((s.ensureChunk cfg r).enterRecord cfg r).writeRecord cfg r).Coherent cfg := by
  by_cases hdeltat : cfg.deltat = 0
  · rw [ensureChunk_of_deltat hdeltat]
    have hwaiting : s.Waiting cfg := by
      rcases h.phase with ⟨-, hne⟩ | hlive | hwaiting
      · exact absurd hdeltat hne
      · exact absurd hdeltat hlive.deltat
      · exact hwaiting
    exact hwaiting.record hdeltat h.orderly h.pointers h.counted h.room r
  · exact (h.ensureChunk hdeltat r).record hn r

/-- The round for a dequeued record keeps the index, the position and the copies in agreement. -/
theorem Coherent.recordRound (h : s.Coherent cfg) (hn : cfg.nCopies = 2)
    (hkeeps : s.KeepsPointers (.record rm r)) : (s.recordRound cfg rm r).Coherent cfg :=
  (h.followDrives hkeeps).record hn r

/-- The idle round either leaves the chunk as it is or ends it. -/
theorem Coherent.idleRound (h : s.Coherent cfg) (now : Timespec) : (s.idleRound cfg now).Coherent cfg := by
  unfold MetaIo.idleRound
  by_cases hout : s.firstOut.isSome
  · rw [if_pos hout]
    have hlive : s.Live cfg s.indexedRecords := by
      cases h.phase with
      | inl hlive => exact hlive
      | inr hwaiting => simp [firstOut, hwaiting.out] at hout
    obtain ⟨duration, hduration⟩ : ∃ duration, durationUsecs s.t0 now.nanoseconds = duration := ⟨_, rfl⟩
    rw [hduration]
    let u : MetaIo := { s with chunkDurationUsecs := duration }
    have horderly : u.Orderly fun _ => True :=
      h.orderly.of_eq rfl rfl
    by_cases htimeout : s.timesOut cfg now
    · simp only [if_pos htimeout]
      have hfinal : Finalized u (u.metadataChunkFinalize cfg) := metadataChunkFinalize_finalized cfg u
      have horderly' := horderly.metadataChunkFinalize cfg
      refine ⟨horderly'.of_eq rfl rfl, rfl, Nat.zero_le _,
        ⟨fun _ => rfl, fun _ _ => rfl⟩, .inr ⟨rfl, fun _ => rfl, fun _ => hfinal.indexed, ?_⟩⟩
      exact fun hdeltat => absurd hdeltat hlive.deltat
    · simp only [if_neg htimeout]
      exact ⟨horderly, h.counted, h.room, ⟨h.pointers.chm, h.pointers.rssd⟩,
        .inl ⟨hlive.deltat, hlive.copies, hlive.recordIndex, hlive.pos⟩⟩
  · rw [if_neg hout]
    exact h

/-- A time change leaves the chunk as it is. -/
theorem Coherent.forwardTimeChange (h : s.Coherent cfg) :
    Coherent cfg { s with forwardTimeChangeOccurred := true } := by
  refine ⟨h.orderly.of_eq rfl rfl, h.counted, h.room,
    ⟨h.pointers.chm, h.pointers.rssd⟩, ?_⟩
  cases h.phase with
  | inl hlive => exact .inl ⟨hlive.deltat, hlive.copies, hlive.recordIndex, hlive.pos⟩
  | inr hwait => exact .inr ⟨hwait.sessionJustStarted, hwait.out, hwait.indexed, hwait.fp⟩

/-- Finalising the chunk when the thread stops leaves no index entry. -/
theorem Coherent.stop (h : s.Coherent cfg) :
    OffsetsRight cfg { s.metadataChunkFinalize cfg with isActive := false } where
  unmisused := (h.orderly.metadataChunkFinalize cfg).unmisused
  counted := rfl
  starts _ _ _ _ hindex := absurd rfl hindex

/-- The thread runs with everything in agreement, or has stopped with its offsets right. -/
def CoherentOrStopped (cfg : Config) (s : MetaIo) : Prop :=
  s.Coherent cfg ∨ s.isActive = false ∧ s.OffsetsRight cfg

theorem CoherentOrStopped.step (h : s.CoherentOrStopped cfg) (hn : cfg.nCopies = 2) {e : Event}
    (hkeeps : s.KeepsPointers e) : (s.step cfg e).CoherentOrStopped cfg := by
  unfold MetaIo.step
  by_cases hactive : s.isActive
  · rw [if_pos hactive]
    have hcoherent : s.Coherent cfg := h.resolve_right fun h' => by simp [h'.1] at hactive
    cases e with
    | record rm r => exact .inl (hcoherent.recordRound hn hkeeps)
    | idle now => exact .inl (hcoherent.idleRound now)
    | forwardTimeChange => exact .inl hcoherent.forwardTimeChange
    | stop => exact .inr ⟨rfl, hcoherent.stop⟩
  · rw [if_neg hactive]
    exact h

/-- In every run which keeps its pointers to drives in use, the offsets in the index are right in
every state and no closed file is used. -/
theorem run_offsetsRight (cfg : Config) (hn : cfg.nCopies = 2) (used : Drive → Bool) (es : List Event)
    (hkeeps : Guarded (step cfg) KeepsPointers (start used) es) :
    (run (step cfg) (start used) es).OffsetsRight cfg := by
  have h : (run (step cfg) (start used) es).CoherentOrStopped cfg :=
    run_invariant (I := CoherentOrStopped cfg) (fun _ _ h hk => h.step hn hk)
      (.inl (coherent_start cfg used)) hkeeps
  exact h.elim Coherent.offsetsRight And.right

/-- A recorder of two copies with the packed layout. -/
def sampleConfig : Config where
  format := ChunkFormat.packed id
  deltat := 1
  chunkMaxDuration := 300
  nCopies := 2

/-- A record of the second `n` of an hour. -/
def sampleRecord (n : ℕ) : Record := ⟨.gps, n + 1, ⟨n, 0⟩, List.replicate 12 (UInt8.ofNat n), by simp⟩

/-- The removable drive goes and comes back. -/
theorem run_offsetsRight_rssd :
    (run (step sampleConfig) (start fun _ => true) [.record (fun _ => true) (sampleRecord 0),
      .record (fun d => d == .chm) (sampleRecord 1),
      .record (fun _ => true) (sampleRecord 2)]).OffsetsRight sampleConfig :=
  run_offsetsRight sampleConfig rfl _ _ (by decide +kernel)

/-- The crash-hardened memory goes between two records; the thread still asks the closed file for
the position. -/
theorem run_not_offsetsRight :
    ¬ (run (step sampleConfig) (start fun _ => true) [.record (fun _ => true) (sampleRecord 0),
      .record (fun _ => true) (sampleRecord 1),
      .record (fun d => d == .rssd) (sampleRecord 2)]).OffsetsRight sampleConfig :=
  fun h => absurd h.unmisused (by decide +kernel)

end MetaIo

end RecordingAgent.Metarec
