import RecordingAgent.Metarec.Thread

/-!
# The copies of a chunk

What closing and opening a copy do to the files. Closing the copy of one drive touches only
paths of that drive, and where the copy was recorded under the chunk's name it leaves the
finalised image under the name it was renamed to. `Orderly` says that the streams the chunk
still has are open; `HasCopy` that a drive has a copy of the chunk with given records.
-/

namespace RecordingAgent.Metarec

open Foundation FileStore

variable {fmt : ChunkFormat} {cfg : Config} {fs : FileStore Path} {d e : Drive} {f pos : ℕ}
  {p : Path} {name : CString} {bytes : List UInt8} {rs : List Record} {sec usec : ℕ}

/-- The bytes of a copy after its header was finalised. -/
def finalizedBytes (fmt : ChunkFormat) (index : List RcdIdx) (bytes : List UInt8) : List UInt8 :=
  if 0 < index.length then
    writeAt (writeAt bytes fmt.subpfx1.length (fmt.subpfx2 fmt.indexCapacity index.length))
      (fmt.subpfx1.length + fmt.sizeofSubpfx2) (index.flatMap fmt.encodeIdx)
  else bytes

/-- Finalising the header of a copy with its own index closes the chunk. -/
theorem finalizedBytes_openImage (hn : rs.length ≤ fmt.indexCapacity) :
    finalizedBytes fmt (fmt.indexOf rs) (fmt.openImage sec usec rs) = fmt.closedImage sec usec rs := by
  rw [finalizedBytes, ChunkFormat.indexOf_length]
  split
  · exact ChunkFormat.closedImage_eq_writes hn
  · rename_i hempty
    obtain rfl : rs = [] := List.length_eq_zero_iff.mp (by omega)
    exact ChunkFormat.closedImage_nil.symm

/-- Finalising the header works on the file of the stream. -/
theorem finalizeHeader_at (fmt : ChunkFormat) (hwf : fs.WellFormed) (h : fs.At f p bytes pos) (index : List RcdIdx) :
    (∃ pos', (finalizeHeader fmt index fs f).At f p (finalizedBytes fmt index bytes) pos') ∧
      Confined {p} fs (finalizeHeader fmt index fs f) := by
  unfold finalizeHeader finalizedBytes
  split
  · have hseek := h.fseek fmt.subpfx1.length
    have hseek' := (localTo_fseek fs f fmt.subpfx1.length).confined hwf h
    have hfirst := hseek.fwrite (fmt.subpfx2 fmt.indexCapacity index.length)
    have hfirst' := (localTo_fwrite _ f (fmt.subpfx2 fmt.indexCapacity index.length)).confined
      hseek'.wellFormed hseek
    rw [fmt.subpfx2_length] at hfirst
    have hsecond := hfirst.fwrite (index.flatMap fmt.encodeIdx)
    have hsecond' := (localTo_fwrite _ f (index.flatMap fmt.encodeIdx)).confined hfirst'.wellFormed hfirst
    exact ⟨⟨_, hsecond⟩, hseek'.trans (hfirst'.trans hsecond')⟩
  · exact ⟨⟨pos, h⟩, .refl hwf _⟩

/-- Finalising, updating the checksum and closing leaves the finished file stored. -/
theorem sealed_stored (fmt : ChunkFormat) (hwf : fs.WellFormed) (h : fs.At f p bytes pos) (index : List RcdIdx) :
    (((finalizeHeader fmt index fs f).rewrite f fmt.updateHmac).fclose f).Stored p
        (fmt.updateHmac (finalizedBytes fmt index bytes)) ∧
      Confined {p} fs (((finalizeHeader fmt index fs f).rewrite f fmt.updateHmac).fclose f) := by
  obtain ⟨⟨pos', hheader⟩, hheader'⟩ := finalizeHeader_at fmt hwf h index
  have hhmac := hheader.rewrite fmt.updateHmac
  have hhmac' := (localTo_rewrite _ f fmt.updateHmac).confined hheader'.wellFormed hheader
  have hclose' := (localTo_fclose _ f).confined hhmac'.wellFormed hhmac
  exact ⟨hhmac.fclose, hheader'.trans (hhmac'.trans hclose')⟩

/-- Making and removing a file is confined to its path. -/
theorem generateFilesystemEvent_confined (hwf : fs.WellFormed) (p : Path) :
    Confined {p} fs (generateFilesystemEvent fs p) := by
  obtain ⟨hat, hopen⟩ := fopen_at hwf p
  have hclose := (localTo_fclose _ (fs.fopen p).1).confined hopen.wellFormed hat
  exact hopen.trans (hclose.trans (remove_confined hclose.wellFormed p))

namespace MetaIo

variable {s t : MetaIo} {D : Drive → Prop} {r : Record}

/-- Closing a copy under the chunk's name stores the finished file under its new name. -/
theorem closeChunk_stored (hwf : s.fs.WellFormed) (h : s.fs.At f (s.stagingPath d) bytes pos) :
    (s.closeChunk cfg d f).fs.Stored (s.closing.path d)
        (cfg.format.updateHmac (finalizedBytes cfg.format s.recordIndex bytes)) ∧
      (s.closeChunk cfg d f).ops = s.ops ++ [.rename d s.closing] ∧
      Confined {s.stagingPath d, s.closing.path d, s.eventPath d} s.fs (s.closeChunk cfg d f).fs := by
  obtain ⟨hsealed, hsealed'⟩ := sealed_stored cfg.format hwf h s.recordIndex
  obtain ⟨hok, hrenamed, hrenamed'⟩ := rename_stored hsealed'.wellFormed hsealed (s.closing.path d)
  have hevent := generateFilesystemEvent_confined hrenamed'.wellFormed (s.eventPath d)
  have hne : s.closing.path d ∉ ({s.eventPath d} : Set Path) := by
    simp [ClosedChunk.path, eventPath]
  refine ⟨hevent.stored _ _ hne hrenamed, ?_, ?_⟩
  · rw [closeChunk, if_pos hok]
  · refine (hsealed'.mono ?_).trans ((hrenamed'.mono ?_).trans (hevent.mono ?_)) <;>
      simp [Set.subset_def]

/-- Closing a copy under any name touches only paths of its drive. -/
theorem closeChunk_confined (hwf : s.fs.WellFormed) (h : s.fs.At f ⟨d, .staging, name⟩ bytes pos) :
    Confined {q | q.drive = d} s.fs (s.closeChunk cfg d f).fs := by
  obtain ⟨-, hsealed'⟩ := sealed_stored cfg.format hwf h s.recordIndex
  have hrenamed' := rename_confined hsealed'.wellFormed (s.stagingPath d) (s.closing.path d)
  have hevent := generateFilesystemEvent_confined hrenamed'.wellFormed (s.eventPath d)
  refine (hsealed'.mono ?_).trans ((hrenamed'.mono ?_).trans (hevent.mono ?_)) <;>
    simp [Set.subset_def, stagingPath, ClosedChunk.path, eventPath]

/-- The files are in order, and the streams that the chunk has on these drives are open. -/
structure Orderly (s : MetaIo) (D : Drive → Prop) : Prop where
  wellFormed : s.fs.WellFormed
  unmisused : s.fs.misused = false
  streams : ∀ d f, D d → s.fp d = some f →
    ∃ name bytes pos, s.fs.At f ⟨d, .staging, name⟩ bytes pos

/-- The drive has a copy of the chunk with these records, at its end. -/
def HasCopy (cfg : Config) (s : MetaIo) (d : Drive) (rs : List Record) : Prop :=
  ∃ f sec usec, s.fp d = some f ∧ s.out d = some f ∧
    s.fs.At f (s.stagingPath d) (cfg.format.openImage sec usec rs)
      (cfg.format.payloadOffset rs rs.length)

theorem Orderly.mono {D' : Drive → Prop} (h : s.Orderly D) (hD : ∀ d, D' d → D d) : s.Orderly D' :=
  ⟨h.wellFormed, h.unmisused, fun d f hd => h.streams d f (hD d hd)⟩

/-- Only the files and the pointers of the chunk matter. -/
theorem Orderly.of_eq (h : s.Orderly D) (hfs : t.fs = s.fs) (hfp : t.fp = s.fp) : t.Orderly D := by
  refine ⟨?_, ?_, ?_⟩ <;> rw [hfs]
  · exact h.wellFormed
  · exact h.unmisused
  · rw [hfp]
    exact h.streams

/-- An operation on the paths of one drive keeps the streams of the others open. -/
theorem Orderly.confined (h : s.Orderly D) (hfs : Confined {q | q.drive = e} s.fs t.fs)
    (hfp : ∀ d, d ≠ e → t.fp d = s.fp d) : t.Orderly fun d => D d ∧ d ≠ e where
  wellFormed := hfs.wellFormed
  unmisused := hfs.misused.trans h.unmisused
  streams d f hd hf := by
    rw [hfp d hd.2] at hf
    obtain ⟨name, bytes, pos, hat⟩ := h.streams d f hd.1 hf
    exact ⟨name, bytes, pos, hfs.at_ _ _ _ _ hd.2 hat⟩

/-- An operation on other paths keeps a copy. -/
theorem HasCopy.confined {T : Set Path} (h : s.HasCopy cfg d rs) (hfs : Confined T s.fs t.fs)
    (hT : s.stagingPath d ∉ T) (hfp : t.fp d = s.fp d) (hout : t.out d = s.out d)
    (hname : t.chunkFname = s.chunkFname) : t.HasCopy cfg d rs := by
  obtain ⟨f, sec, usec, hf, ho, hat⟩ := h
  have hpath : t.stagingPath d = s.stagingPath d := congrArg (Path.mk d .staging) hname
  refine ⟨f, sec, usec, hfp.trans hf, hout.trans ho, ?_⟩
  rw [hpath]
  exact hfs.at_ _ _ _ _ hT hat

/-- Only the files, their streams and the log of operations differ. -/
structure SameBook (s t : MetaIo) : Prop where
  isActive : t.isActive = s.isActive
  isUsed : t.isUsed = s.isUsed
  subpath : t.subpath = s.subpath
  chunkDurationUsecs : t.chunkDurationUsecs = s.chunkDurationUsecs
  sessionJustStarted : t.sessionJustStarted = s.sessionJustStarted
  driveStatusUpdated : t.driveStatusUpdated = s.driveStatusUpdated
  prevTm : t.prevTm = s.prevTm
  chunkFname : t.chunkFname = s.chunkFname
  recordIndex : t.recordIndex = s.recordIndex
  forwardTimeChangeOccurred : t.forwardTimeChangeOccurred = s.forwardTimeChangeOccurred
  preRec : t.preRec = s.preRec
  pos : t.pos = s.pos
  indexed : t.indexed = s.indexed
  taken : t.taken = s.taken

theorem SameBook.refl (s : MetaIo) : SameBook s s :=
  ⟨rfl, rfl, rfl, rfl, rfl, rfl, rfl, rfl, rfl, rfl, rfl, rfl, rfl, rfl⟩

theorem SameBook.trans {u : MetaIo} (h : SameBook s t) (h' : SameBook t u) : SameBook s u where
  isActive := h'.isActive.trans h.isActive
  isUsed := h'.isUsed.trans h.isUsed
  subpath := h'.subpath.trans h.subpath
  chunkDurationUsecs := h'.chunkDurationUsecs.trans h.chunkDurationUsecs
  sessionJustStarted := h'.sessionJustStarted.trans h.sessionJustStarted
  driveStatusUpdated := h'.driveStatusUpdated.trans h.driveStatusUpdated
  prevTm := h'.prevTm.trans h.prevTm
  chunkFname := h'.chunkFname.trans h.chunkFname
  recordIndex := h'.recordIndex.trans h.recordIndex
  forwardTimeChangeOccurred := h'.forwardTimeChangeOccurred.trans h.forwardTimeChangeOccurred
  preRec := h'.preRec.trans h.preRec
  pos := h'.pos.trans h.pos
  indexed := h'.indexed.trans h.indexed
  taken := h'.taken.trans h.taken

/-- Closing a copy writes nothing into the book, and keeps the pointers. -/
theorem closeChunk_book (cfg : Config) (s : MetaIo) (d : Drive) (f : ℕ) :
    SameBook s (s.closeChunk cfg d f) ∧ (s.closeChunk cfg d f).fp = s.fp ∧
      (s.closeChunk cfg d f).out = s.out :=
  ⟨⟨rfl, rfl, rfl, rfl, rfl, rfl, rfl, rfl, rfl, rfl, rfl, rfl, rfl, rfl⟩, rfl, rfl⟩

theorem closePrevious_book (cfg : Config) (s : MetaIo) (d : Drive) :
    SameBook s (s.closePrevious cfg d) ∧ (s.closePrevious cfg d).fp = s.fp ∧
      (s.closePrevious cfg d).out = s.out := by
  unfold closePrevious
  split
  · split
    · exact closeChunk_book cfg s d _
    · exact ⟨.refl s, rfl, rfl⟩
  · exact ⟨.refl s, rfl, rfl⟩

theorem finalizeCopy_book (cfg : Config) (s : MetaIo) (d : Drive) :
    SameBook s (s.finalizeCopy cfg d) ∧ (s.finalizeCopy cfg d).out = s.out ∧
      ∀ e, e ≠ d → (s.finalizeCopy cfg d).fp e = s.fp e := by
  unfold finalizeCopy
  split
  · split
    · obtain ⟨hbook, -, hout⟩ := closeChunk_book cfg s d ‹ℕ›
      exact ⟨⟨hbook.1, hbook.2, hbook.3, hbook.4, hbook.5, hbook.6, hbook.7, hbook.8, hbook.9, hbook.10,
        hbook.11, hbook.12, hbook.13, hbook.14⟩, hout, fun e he => Function.update_of_ne he _ _⟩
    · exact ⟨.refl s, rfl, fun _ _ => rfl⟩
  · exact ⟨.refl s, rfl, fun _ _ => rfl⟩

theorem openCopy_book (cfg : Config) (r : Record) (s : MetaIo) (d : Drive) :
    SameBook s (s.openCopy cfg r d) := by
  unfold openCopy
  split
  · exact ⟨rfl, rfl, rfl, rfl, rfl, rfl, rfl, rfl, rfl, rfl, rfl, rfl, rfl, rfl⟩
  · exact .refl s

/-- Opening a copy changes the pointers of its drive only, and only if the drive is in use. -/
theorem openCopy_streams (cfg : Config) (r : Record) (s : MetaIo) (d : Drive)
    (he : e ≠ d ∨ s.isUsed d = false) :
    (s.openCopy cfg r d).fp e = s.fp e ∧ (s.openCopy cfg r d).out e = s.out e := by
  unfold openCopy
  split
  · rename_i hused
    have hne : e ≠ d := he.resolve_right (by simp [hused])
    exact ⟨Function.update_of_ne hne _ _, Function.update_of_ne hne _ _⟩
  · exact ⟨rfl, rfl⟩

/-- Closing the previous copy on a drive leaves the streams of the others, and that of the drive
itself if there was nothing to close. -/
theorem Orderly.closePrevious (h : s.Orderly D) (cfg : Config) (hd : D d) :
    (s.closePrevious cfg d).Orderly fun e => D e ∧ (e = d → s.isUsed d = false) := by
  unfold MetaIo.closePrevious
  cases hfp : s.fp d with
  | none =>
    refine ⟨h.wellFormed, h.unmisused, fun e f he hf => ?_⟩
    exact h.streams e f he.1 hf
  | some f =>
    by_cases hused : s.isUsed d
    · simp only [if_pos hused]
      obtain ⟨name, bytes, pos, hat⟩ := h.streams d f hd hfp
      refine (h.confined (closeChunk_confined h.wellFormed hat) fun _ _ => rfl).mono ?_
      intro e he
      exact ⟨he.1, fun hed => by simp [he.2 hed] at hused⟩
    · simp only [if_neg hused]
      exact h.mono fun e he => he.1

/-- Finalising a copy keeps every stream that the chunk still has open. -/
theorem Orderly.finalizeCopy (h : s.Orderly D) (cfg : Config) (hd : D d) :
    (s.finalizeCopy cfg d).Orderly D := by
  unfold MetaIo.finalizeCopy
  cases hfp : s.fp d with
  | none => exact h
  | some f =>
    by_cases hclose : s.isUsed d ∧ 0 < s.chunkDurationUsecs
    · simp only [if_pos hclose]
      obtain ⟨name, bytes, pos, hat⟩ := h.streams d f hd hfp
      have hothers := h.confined (t := { s.closeChunk cfg d f with fp := Function.update s.fp d none })
        (closeChunk_confined h.wellFormed hat) fun e he => Function.update_of_ne he _ _
      refine ⟨hothers.wellFormed, hothers.unmisused, fun e g he hg => ?_⟩
      by_cases hed : e = d
      · subst hed
        simp at hg
      · exact hothers.streams e g ⟨he, hed⟩ hg
    · simp only [if_neg hclose]
      exact h

/-- Opening a copy on a drive in use gives the chunk a copy without records there. -/
theorem openCopy_fresh (cfg : Config) (hwf : s.fs.WellFormed) (r : Record) (hused : s.isUsed d = true) :
    (s.openCopy cfg r d).HasCopy cfg d [] ∧
      Confined {s.stagingPath d} s.fs (s.openCopy cfg r d).fs := by
  obtain ⟨hat, hopen⟩ := fopen_at hwf (s.stagingPath d)
  have hpfx := hat.fwrite cfg.format.newPrefix
  have hpfx' := (localTo_fwrite _ (s.fs.fopen (s.stagingPath d)).1 cfg.format.newPrefix).confined
    hopen.wellFormed hat
  have hstart : writeAt [] 0 cfg.format.newPrefix = cfg.format.newPrefix :=
    writeAt_length [] cfg.format.newPrefix
  rw [hstart, Nat.zero_add] at hpfx
  have hhdr := hpfx.fwrite (cfg.format.chunkHdr r.ts.tvSec (r.ts.tvNsec / 1000))
  have hhdr' := (localTo_fwrite _ (s.fs.fopen (s.stagingPath d)).1
    (cfg.format.chunkHdr r.ts.tvSec (r.ts.tvNsec / 1000))).confined hpfx'.wellFormed hpfx
  have himage : cfg.format.newPrefix ++ cfg.format.chunkHdr r.ts.tvSec (r.ts.tvNsec / 1000) =
      cfg.format.openImage r.ts.tvSec (r.ts.tvNsec / 1000) [] := by
    simp [ChunkFormat.openImage, ChunkFormat.body]
  have hend : cfg.format.newPrefix.length +
      (cfg.format.chunkHdr r.ts.tvSec (r.ts.tvNsec / 1000)).length =
        cfg.format.payloadOffset [] ([] : List Record).length := by
    rw [ChunkFormat.newPrefix_length, cfg.format.chunkHdr_length]
    rfl
  rw [writeAt_length, himage, hend] at hhdr
  unfold openCopy
  rw [if_pos hused]
  refine ⟨⟨(s.fs.fopen (s.stagingPath d)).1, r.ts.tvSec, r.ts.tvNsec / 1000, Function.update_self ..,
    Function.update_self .., hhdr⟩, ?_⟩
  exact hopen.trans (hpfx'.trans hhdr')

/-- Opening a copy makes the stream of its drive one of the open ones. -/
theorem Orderly.openCopy (h : s.Orderly D) (cfg : Config) (r : Record) (d : Drive) :
    (s.openCopy cfg r d).Orderly fun e => D e ∨ (e = d ∧ s.isUsed d = true) := by
  by_cases hused : s.isUsed d = true
  · obtain ⟨hcopy, hfs⟩ := openCopy_fresh cfg h.wellFormed r hused
    have hothers := h.confined (hfs.mono (by simp)) fun e he => (openCopy_streams cfg r s d (.inl he)).1
    refine ⟨hothers.wellFormed, hothers.unmisused, fun e g he hg => ?_⟩
    by_cases hed : e = d
    · subst hed
      obtain ⟨f, sec, usec, hf, -, hat⟩ := hcopy
      obtain rfl : f = g := by simpa [hf] using hg
      exact ⟨_, _, _, hat⟩
    · exact hothers.streams e g ⟨he.resolve_right fun h' => hed h'.1, hed⟩ hg
  · unfold MetaIo.openCopy
    rw [if_neg hused]
    exact h.mono fun e he => he.resolve_right fun h' => hused h'.2

/-- Preparing the directory of the hour changes only its name and the log. -/
theorem prepareSubpath_eq (s : MetaIo) : ∃ subpath ops, s.prepareSubpath = { s with subpath, ops } := by
  refine foldl_invariant (I := fun t : MetaIo => ∃ subpath ops, t = { s with subpath, ops })
    ⟨s.subpath, s.ops, rfl⟩ ?_
  rintro _ d _ ⟨subpath, ops, rfl⟩
  split
  · exact ⟨_, _, rfl⟩
  · exact ⟨_, _, rfl⟩

/-- Naming a chunk resets what is known of its records and keeps the files. -/
structure Named (s t : MetaIo) (tm : Tm) : Prop where
  fs : t.fs = s.fs
  fp : t.fp = s.fp
  out : t.out = s.out
  isActive : t.isActive = s.isActive
  isUsed : t.isUsed = s.isUsed
  sessionJustStarted : t.sessionJustStarted = s.sessionJustStarted
  forwardTimeChangeOccurred : t.forwardTimeChangeOccurred = s.forwardTimeChangeOccurred
  taken : t.taken = s.taken
  preRec : t.preRec = s.preRec
  recordIndex : t.recordIndex = []
  indexed : t.indexed = []
  chunkFname : t.chunkFname = chunkFnameOf tm

theorem nameChunk_named (s : MetaIo) (tm : Tm) : Named s (s.nameChunk tm) tm := by
  simp only [nameChunk]
  split
  · obtain ⟨subpath, ops, h⟩ := prepareSubpath_eq { s with
        recordIndex := []
        indexed := []
        chunkDurationUsecs := 0
        chunkFname := chunkFnameOf tm
        prevTm := tm }
    rw [h]
    exact ⟨rfl, rfl, rfl, rfl, rfl, rfl, rfl, rfl, rfl, rfl, rfl, rfl⟩
  · exact ⟨rfl, rfl, rfl, rfl, rfl, rfl, rfl, rfl, rfl, rfl, rfl, rfl⟩

/-- Closing the previous copies leaves the streams of the drives not in use. -/
theorem closeAll_orderly (h : s.Orderly fun _ => True) (cfg : Config) :
    (Drive.all.foldl (closePrevious cfg) s).Orderly fun d => s.isUsed d = false := by
  have h₁ := h.closePrevious (d := .chm) cfg trivial
  have h₂ := h₁.closePrevious (d := .rssd) cfg ⟨trivial, nofun⟩
  rw [(closePrevious_book cfg s .chm).1.isUsed] at h₂
  exact h₂.mono fun d hd => ⟨⟨trivial, fun heq => heq ▸ hd⟩, fun heq => heq ▸ hd⟩

theorem closeAll_book (cfg : Config) (s : MetaIo) :
    SameBook s (Drive.all.foldl (closePrevious cfg) s) ∧
      (Drive.all.foldl (closePrevious cfg) s).fp = s.fp ∧
      (Drive.all.foldl (closePrevious cfg) s).out = s.out := by
  obtain ⟨hbook₁, hfp₁, hout₁⟩ := closePrevious_book cfg s .chm
  obtain ⟨hbook₂, hfp₂, hout₂⟩ := closePrevious_book cfg (s.closePrevious cfg .chm) .rssd
  exact ⟨hbook₁.trans hbook₂, hfp₂.trans hfp₁, hout₂.trans hout₁⟩

/-- Opening the copies of a chunk on the drives in use, whose previous streams are closed. -/
theorem openAll_fresh (h : s.Orderly fun d => s.isUsed d = false) (cfg : Config) (r : Record) :
    (Drive.all.foldl (openCopy cfg r) s).Orderly (fun _ => True) ∧
      ∀ d, s.isUsed d = true → (Drive.all.foldl (openCopy cfg r) s).HasCopy cfg d [] := by
  have h₁ := h.openCopy cfg r .chm
  have h₂ := h₁.openCopy cfg r .rssd
  have hbook := openCopy_book cfg r s .chm
  rw [hbook.isUsed] at h₂
  refine ⟨h₂.mono fun d _ => ?_, fun d hd => ?_⟩
  · by_cases hused : s.isUsed d = true
    · cases d with
      | chm => exact .inl (.inr ⟨rfl, hused⟩)
      | rssd => exact .inr ⟨rfl, hused⟩
    · exact .inl (.inl (by simpa using hused))
  · cases d with
    | chm =>
      have hfresh := (openCopy_fresh cfg h.wellFormed r hd).1
      cases hrssd : (s.openCopy cfg r .chm).isUsed .rssd with
      | false =>
        have hsame : (s.openCopy cfg r .chm).openCopy cfg r .rssd = s.openCopy cfg r .chm := by
          conv_lhs => rw [openCopy, if_neg (by simp [hrssd])]
        simp only [Drive.all, List.foldl_cons, List.foldl_nil]
        rw [hsame]
        exact hfresh
      | true =>
        have hfs := (openCopy_fresh cfg h₁.wellFormed r hrssd).2
        obtain ⟨hfp, hout⟩ := openCopy_streams cfg r (s.openCopy cfg r .chm) .rssd
          (e := .chm) (.inl (by decide))
        exact hfresh.confined hfs (by simp) hfp hout (openCopy_book cfg r _ .rssd).chunkFname
    | rssd =>
      have hused : (s.openCopy cfg r .chm).isUsed .rssd = true := by
        rw [hbook.isUsed]
        exact hd
      exact (openCopy_fresh cfg h₁.wellFormed r hused).1

theorem openAll_book (cfg : Config) (r : Record) (s : MetaIo) :
    SameBook s (Drive.all.foldl (openCopy cfg r) s) :=
  (openCopy_book cfg r s .chm).trans (openCopy_book cfg r _ .rssd)

/-- Opening the copies of a chunk keeps the pointers of the drives not in use. -/
theorem openAll_unused (cfg : Config) (r : Record) (hd : s.isUsed d = false) :
    (Drive.all.foldl (openCopy cfg r) s).fp d = s.fp d ∧
      (Drive.all.foldl (openCopy cfg r) s).out d = s.out d := by
  have hapart : ∀ t : MetaIo, t.isUsed = s.isUsed → ∀ e, d ≠ e ∨ t.isUsed e = false := by
    intro t ht e
    by_cases hde : d = e
    · exact .inr (by rw [ht, ← hde]; exact hd)
    · exact .inl hde
  obtain ⟨hfp₁, hout₁⟩ := openCopy_streams cfg r s .chm (hapart s rfl .chm)
  obtain ⟨hfp₂, hout₂⟩ := openCopy_streams cfg r (s.openCopy cfg r .chm) .rssd
    (hapart _ (openCopy_book cfg r s .chm).isUsed .rssd)
  exact ⟨hfp₂.trans hfp₁, hout₂.trans hout₁⟩

/-- What finalising the chunk leaves: an empty index, and no new pointer. -/
structure Finalized (s t : MetaIo) : Prop where
  isActive : t.isActive = s.isActive
  isUsed : t.isUsed = s.isUsed
  sessionJustStarted : t.sessionJustStarted = s.sessionJustStarted
  driveStatusUpdated : t.driveStatusUpdated = s.driveStatusUpdated
  preRec : t.preRec = s.preRec
  taken : t.taken = s.taken
  out : t.out = s.out
  fp : ∀ d, s.fp d = none → t.fp d = none
  recordIndex : t.recordIndex = []
  indexed : t.indexed = []

theorem finalizeCopy_fp (cfg : Config) (s : MetaIo) (d e : Drive) (he : s.fp e = none) :
    (s.finalizeCopy cfg d).fp e = none := by
  by_cases hed : e = d
  · subst hed
    rw [finalizeCopy, he]
    exact he
  · rw [(finalizeCopy_book cfg s d).2.2 e hed]
    exact he

theorem metadataChunkFinalize_finalized (cfg : Config) (s : MetaIo) :
    Finalized s (s.metadataChunkFinalize cfg) := by
  obtain ⟨hbook₁, hout₁, -⟩ := finalizeCopy_book cfg s .chm
  obtain ⟨hbook₂, hout₂, -⟩ := finalizeCopy_book cfg (s.finalizeCopy cfg .chm) .rssd
  have hbook := hbook₁.trans hbook₂
  exact ⟨hbook.isActive, hbook.isUsed, hbook.sessionJustStarted, hbook.driveStatusUpdated, hbook.preRec,
    hbook.taken, hout₂.trans hout₁,
    fun d hd => finalizeCopy_fp cfg _ .rssd d (finalizeCopy_fp cfg s .chm d hd), rfl, rfl⟩

/-- Finalising the chunk keeps the streams it still has open. -/
theorem Orderly.metadataChunkFinalize (h : s.Orderly fun _ => True) (cfg : Config) :
    (s.metadataChunkFinalize cfg).Orderly fun _ => True := by
  have h' := (h.finalizeCopy cfg (d := .chm) trivial).finalizeCopy cfg (d := .rssd) trivial
  exact h'.of_eq rfl rfl

/-- What starting a chunk leaves: a fresh copy on each drive in use, and an empty index. -/
structure Started (cfg : Config) (s t : MetaIo) : Prop where
  orderly : t.Orderly fun _ => True
  fresh : ∀ d, s.isUsed d = true → t.HasCopy cfg d []
  recordIndex : t.recordIndex = []
  indexed : t.indexed = []
  sessionJustStarted : t.sessionJustStarted = false
  isActive : t.isActive = s.isActive
  isUsed : t.isUsed = s.isUsed
  taken : t.taken = s.taken
  preRec : t.preRec = s.preRec
  unused : ∀ d, s.isUsed d = false → t.fp d = s.fp d ∧ t.out d = s.out d

/-- A chunk starts in order when the streams of the previous one are. -/
theorem startChunk_started (h : s.Orderly fun _ => True) (cfg : Config) (r : Record) :
    Started cfg s (s.startChunk cfg r) := by
  let s₀ : MetaIo := { s with sessionJustStarted := false, driveStatusUpdated := false }
  let s₁ := Drive.all.foldl (closePrevious cfg) s₀
  have h₁ : s₁.Orderly fun d => s.isUsed d = false :=
    closeAll_orderly (s := s₀) (h.of_eq rfl rfl) cfg
  obtain ⟨hbook₁, hfp₁, hout₁⟩ : SameBook s₀ s₁ ∧ s₁.fp = s₀.fp ∧ s₁.out = s₀.out := closeAll_book cfg s₀
  have hnamed := nameChunk_named s₁ (gmtime r.tod)
  have h₂ : (s₁.nameChunk (gmtime r.tod)).Orderly fun d =>
      (s₁.nameChunk (gmtime r.tod)).isUsed d = false := by
    refine ⟨hnamed.fs ▸ h₁.wellFormed, hnamed.fs ▸ h₁.unmisused, ?_⟩
    rw [hnamed.fs, hnamed.fp, hnamed.isUsed, hbook₁.isUsed]
    exact h₁.streams
  have hused : (s₁.nameChunk (gmtime r.tod)).isUsed = s.isUsed := hnamed.isUsed.trans hbook₁.isUsed
  have hbook := openAll_book cfg r (s₁.nameChunk (gmtime r.tod))
  obtain ⟨horderly, hfresh⟩ := openAll_fresh h₂ cfg r
  constructor
  · exact horderly
  · exact fun d hd => hfresh d (by rw [hused]; exact hd)
  · exact hbook.recordIndex.trans hnamed.recordIndex
  · exact hbook.indexed.trans hnamed.indexed
  · exact hbook.sessionJustStarted.trans (hnamed.sessionJustStarted.trans hbook₁.sessionJustStarted)
  · exact hbook.isActive.trans (hnamed.isActive.trans hbook₁.isActive)
  · exact hbook.isUsed.trans hused
  · exact hbook.taken.trans (hnamed.taken.trans hbook₁.taken)
  · exact hbook.preRec.trans (hnamed.preRec.trans hbook₁.preRec)
  · intro d hd
    have hunused : (s₁.nameChunk (gmtime r.tod)).isUsed d = false := by
      rw [hused]
      exact hd
    obtain ⟨hfp, hout⟩ := openAll_unused cfg r hunused
    rw [hnamed.fp, hfp₁] at hfp
    rw [hnamed.out, hout₁] at hout
    exact ⟨hfp, hout⟩

end MetaIo

end RecordingAgent.Metarec
