import RecordingAgent.Metarec.Filing

/-!
# What rotation keeps

A chunk ends for one of six reasons, and its copies are closed by one of two pieces of code.
Closing the copies of a chunk on the drives in use appends the chunk to what each of these
drives keeps: the file under its new name holds the records of the index, and the files renamed
before are still there as long as the new name was free.
-/

namespace RecordingAgent.Metarec

open Foundation FileStore

namespace MetaIo

variable {cfg : Config} {s t : MetaIo} {d e : Drive} {f : ℕ}

/-- Every copy that was renamed is stored under its own name with its records. -/
structure Archived (cfg : Config) (s : MetaIo) : Prop where
  stored : ∀ d, ∀ c ∈ s.renamed d, ∃ sec usec,
    s.fs.Stored (c.path d) (cfg.format.finalImage sec usec (c.records.map Prod.snd))
  room : ∀ d, ∀ c ∈ s.renamed d, c.records.length ≤ cfg.format.indexCapacity
  distinct : ∀ d, ((s.renamed d).map fun c => c.path d).Nodup

theorem archived_start (cfg : Config) (used : Drive → Bool) : (start used).Archived cfg where
  stored _ _ hc := absurd hc List.not_mem_nil
  room _ _ hc := absurd hc List.not_mem_nil
  distinct _ := List.nodup_nil

/-- The copy of the chunk on the drive can be closed: it has the records of the index, and its new name
is free. -/
structure Closable (cfg : Config) (s : MetaIo) (d : Drive) : Prop where
  wellFormed : s.fs.WellFormed
  copy : s.HasCopy cfg d s.indexedRecords
  index : s.recordIndex = cfg.format.indexOf s.indexedRecords
  room : s.indexed.length ≤ cfg.format.indexCapacity
  free : s.fs.dir (s.closing.path d) = none

theorem renamed_append_rename (s : MetaIo) (ops : List FileOp) (c : ClosedChunk) (e : Drive) :
    renamed { s with ops := ops ++ [.rename d c] } e =
      renamed { s with ops := ops } e ++ if e = d then [c] else [] := by
  simp only [renamed, List.filterMap_append, List.filterMap_cons, List.filterMap_nil]
  by_cases h : d = e
  · rw [if_pos h, if_pos h.symm]
  · rw [if_neg h, if_neg (Ne.symm h)]

/-- What was archived stays so when the data directories keep their files. -/
theorem Archived.of_stored (h : s.Archived cfg)
    (hfs : ∀ p bytes, p.area = .data → s.fs.Stored p bytes → t.fs.Stored p bytes)
    (hrenamed : ∀ d, t.renamed d = s.renamed d) : t.Archived cfg := by
  refine ⟨fun d c hc => ?_, fun d c hc => h.room d c (hrenamed d ▸ hc), fun d => hrenamed d ▸ h.distinct d⟩
  rw [hrenamed] at hc
  obtain ⟨sec, usec, hstored⟩ := h.stored d c hc
  exact ⟨sec, usec, hfs _ _ rfl hstored⟩

/-- A file that was archived is not where a free name is. -/
theorem Archived.ne_of_free (h : s.Archived cfg) {p : Path} (hp : s.fs.dir p = none) :
    ∀ d, ∀ c ∈ s.renamed d, c.path d ≠ p := by
  rintro d c hc rfl
  obtain ⟨sec, usec, i, hi, -⟩ := h.stored d c hc
  rw [hp] at hi
  cases hi

/-- Closing a copy archives it. -/
theorem Archived.closeChunk (h : s.Archived cfg) (hd : s.Closable cfg d) (hf : s.fp d = some f) :
    (s.closeChunk cfg d f).Archived cfg ∧
      ∀ e, (s.closeChunk cfg d f).renamed e = s.renamed e ++ if e = d then [s.closing] else [] := by
  obtain ⟨g, sec, usec, hg, -, hat⟩ := hd.copy
  obtain rfl := Option.some.inj (hf.symm.trans hg)
  obtain ⟨hstored, hops, hfs⟩ := @closeChunk_stored cfg d f _ _ s hd.wellFormed hat
  have hn : s.indexedRecords.length ≤ cfg.format.indexCapacity := by
    rw [indexedRecords, List.length_map]
    exact hd.room
  rw [hd.index, finalizedBytes_openImage hn] at hstored
  have hrenamed : ∀ e, (s.closeChunk cfg d f).renamed e = s.renamed e ++ if e = d then [s.closing] else [] := by
    intro e
    rw [renamed, hops]
    exact renamed_append_rename s s.ops s.closing e
  refine ⟨⟨fun e c hc => ?_, fun e c hc => ?_, fun e => ?_⟩, hrenamed⟩
  · rw [hrenamed, List.mem_append] at hc
    rcases hc with hold | hnew
    · obtain ⟨sec', usec', hkept⟩ := h.stored e c hold
      refine ⟨sec', usec', hfs.stored _ _ ?_ hkept⟩
      have hne := h.ne_of_free hd.free e c hold
      simp [ClosedChunk.path, stagingPath, eventPath] at hne ⊢
      exact hne
    · split at hnew
      · rename_i heq
        obtain rfl := heq
        obtain rfl := List.mem_singleton.mp hnew
        exact ⟨sec, usec, hstored⟩
      · exact absurd hnew List.not_mem_nil
  · rw [hrenamed, List.mem_append] at hc
    rcases hc with hold | hnew
    · exact h.room e c hold
    · split at hnew
      · obtain rfl := List.mem_singleton.mp hnew
        exact hd.room
      · exact absurd hnew List.not_mem_nil
  · rw [hrenamed]
    split
    · rename_i heq
      obtain rfl := heq
      rw [List.map_append, List.map_singleton, List.nodup_append]
      refine ⟨h.distinct e, List.nodup_singleton _, fun p hp q hq => ?_⟩
      obtain ⟨c, hc, rfl⟩ := List.mem_map.mp hp
      obtain rfl := List.mem_singleton.mp hq
      exact h.ne_of_free hd.free e c hc
    · rw [List.append_nil]
      exact h.distinct e

/-- Closing a copy touches no directory of another drive. -/
theorem closeChunk_dir (cfg : Config) (s : MetaIo) (f : ℕ) {p : Path} (hp : p.drive ≠ d) :
    (s.closeChunk cfg d f).fs.dir p = s.fs.dir p := by
  have hne : ∀ q : Path, q.drive = d → p ≠ q := by
    rintro q hq rfl
    exact hp hq
  have hdir : (((finalizeHeader cfg.format s.recordIndex s.fs f).rewrite f cfg.format.updateHmac).fclose f).dir =
      s.fs.dir := finalizeHeader_dir cfg.format s.recordIndex s.fs f
  unfold MetaIo.closeChunk
  simp only [generateFilesystemEvent_dir, FileStore.rename]
  rw [Function.update_of_ne (hne _ rfl), hdir]
  split
  · exact congrFun hdir p
  · dsimp only
    rw [Function.update_of_ne (hne _ rfl), Function.update_of_ne (hne _ rfl)]

/-- The drive is in use and has a copy of the chunk open. -/
def Recording (s : MetaIo) (d : Drive) : Prop := s.isUsed d = true ∧ s.fp d ≠ none

instance (s : MetaIo) (d : Drive) : Decidable (s.Recording d) := inferInstanceAs (Decidable (_ ∧ _))

/-- Closing the copy of one drive leaves that of the other ready to be closed. -/
theorem Closable.closePrevious (he : s.Closable cfg e) (hd : s.Recording d → s.Closable cfg d) (hne : e ≠ d) :
    (s.closePrevious cfg d).Closable cfg e := by
  unfold MetaIo.closePrevious
  split
  · rename_i f hf
    split
    · rename_i hused
      have hclosable := hd ⟨hused, by simp [hf]⟩
      obtain ⟨g, sec, usec, hg, -, hat⟩ := hclosable.copy
      obtain rfl := Option.some.inj (hf.symm.trans hg)
      obtain ⟨-, -, hfs⟩ := @closeChunk_stored cfg d f _ _ s hclosable.wellFormed hat
      refine ⟨hfs.wellFormed, he.copy.confined hfs ?_ rfl rfl rfl, he.index, he.room, ?_⟩
      · simp [stagingPath, ClosedChunk.path, eventPath, hne]
      · exact (closeChunk_dir cfg s f hne).trans he.free
    · exact he
  · exact he

/-- Closing the previous copy of a drive archives it, if there is one. -/
theorem Archived.closePrevious (h : s.Archived cfg) (hd : s.Recording d → s.Closable cfg d) :
    (s.closePrevious cfg d).Archived cfg ∧ ∀ e, (s.closePrevious cfg d).renamed e =
      s.renamed e ++ if e = d ∧ s.Recording d then [s.closing] else [] := by
  by_cases hrecording : s.Recording d
  · obtain ⟨f, hf⟩ := Option.ne_none_iff_exists'.mp hrecording.2
    have hclose : s.closePrevious cfg d = s.closeChunk cfg d f := by
      simp only [MetaIo.closePrevious, hf, hrecording.1, if_true]
    rw [hclose]
    simpa only [hrecording, and_true] using h.closeChunk (hd hrecording) hf
  · have hsame : s.closePrevious cfg d = s := by
      unfold MetaIo.closePrevious
      split
      · rename_i f hf
        rw [if_neg fun hused => hrecording ⟨hused, by simp [hf]⟩]
      · rfl
    rw [hsame]
    exact ⟨h, fun e => by simp [hrecording]⟩

/-- Closing the previous copies archives the chunk on every drive that recorded it. -/
theorem Archived.closeAll (h : s.Archived cfg) (hall : ∀ d, s.Recording d → s.Closable cfg d) :
    (Drive.all.foldl (MetaIo.closePrevious cfg) s).Archived cfg ∧ ∀ d,
      (Drive.all.foldl (MetaIo.closePrevious cfg) s).renamed d =
        s.renamed d ++ if s.Recording d then [s.closing] else [] := by
  obtain ⟨hbook, hfp, -⟩ := closePrevious_book cfg s .chm
  have hrecording : (s.closePrevious cfg .chm).Recording .rssd ↔ s.Recording .rssd := by
    rw [Recording, hbook.isUsed, hfp, Recording]
  have hclosing : (s.closePrevious cfg .chm).closing = s.closing := by
    rw [closing, hbook.subpath, hbook.chunkFname, hbook.chunkDurationUsecs, hbook.indexed]
  obtain ⟨hchm, hchm'⟩ := h.closePrevious (hall .chm)
  obtain ⟨hrssd, hrssd'⟩ := hchm.closePrevious (d := .rssd) fun hr =>
    (hall .rssd (hrecording.mp hr)).closePrevious (hall .chm) (by decide)
  refine ⟨hrssd, fun d => (hrssd' d).trans ?_⟩
  rw [hchm', hclosing]
  cases d <;> simp [hrecording]

end MetaIo

end RecordingAgent.Metarec
