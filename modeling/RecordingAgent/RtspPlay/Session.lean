import Mathlib.Data.Set.Basic
import RecordingAgent.RtspPlay.Fetching

/-!
# The states of a session

A session starts with a prefetch, and goes on with calls of `Play`, seeks and speeds which are set. Whatever
the files of the chunks hold, the source stays sound: it reads the chunks it was made for, or has come to
their end.
-/

namespace RecordingAgent.RtspPlay

variable {P : Type} {disk : P → Option (List UInt8)} {data : VideoChunkT P} {s s' : RTPdumpFileSource P}
  {pos : ℤ} {fuel : ℕ}

namespace RTPdumpFileSource

/-- The source before its first prefetch. -/
def initial (disk : P → Option (List UInt8)) (data : VideoChunkT P) (audioTransport : Bool) (uninitialised : ℤ) :
    RTPdumpFileSource P where
  mReader := RTPdumpFileReader.new disk data
  mTrack := 0
  mPos := uninitialised
  mSpeed := some 1
  mEnd := uint32Max
  mFirst := -1
  video := ⟨0, 0, 0, 0, 0⟩
  audio := ⟨0, 0, 0, 0, 0⟩
  buffer := .zero
  r := false
  aR := false
  vR := false
  audioTransport := audioTransport
  held := none

theorem new_eq (disk : P → Option (List UInt8)) (data : VideoChunkT P) (audioTransport : Bool)
    (uninitialised : ℤ) : new disk data audioTransport uninitialised =
      (playHandler disk ((initial disk data audioTransport uninitialised).handlerFuel disk)
        (initial disk data audioTransport uninitialised) .init).map Prod.snd := rfl

/-- The states of a session in which only these speeds are set. A call of `Play` before the next packet is
due and a call of `Pause` change nothing. -/
inductive Reachable (disk : P → Option (List UInt8)) (data : VideoChunkT P) (speeds : Set (Option ℚ)) :
    RTPdumpFileSource P → Prop
  | new {audioTransport : Bool} {uninitialised : ℤ} {s : RTPdumpFileSource P}
      (h : RTPdumpFileSource.new disk data audioTransport uninitialised = some s) : Reachable disk data speeds s
  | play {s s' : RTPdumpFileSource P} {ok : Bool} {sent : Option (ℕ × List UInt8)}
      (hs : Reachable disk data speeds s) (h : s.play disk = some (ok, sent, s')) : Reachable disk data speeds s'
  | seek {s s' : RTPdumpFileSource P} {pos code : ℤ} {fuel : ℕ} (hs : Reachable disk data speeds s)
      (h : s.seek disk pos fuel = some (code, s')) : Reachable disk data speeds s'
  | setSpeed {s : RTPdumpFileSource P} {speed : Option ℚ} (hspeed : speed ∈ speeds)
      (hs : Reachable disk data speeds s) : Reachable disk data speeds (s.setSpeed speed)

theorem sound_initial (disk : P → Option (List UInt8)) (data : VideoChunkT P) (audioTransport : Bool)
    (uninitialised : ℤ) : Sound data (initial disk data audioTransport uninitialised) := by
  refine ⟨?_, ?_, rfl, Nat.two_pow_pos 32⟩
  · simp [initial, RTPdumpFileReader.new]
  · exact (RTPdumpFileReader.new_spec disk data).imp And.left And.left

/-- What each part of the handler keeps, a call of it keeps, with its calls by itself. -/
theorem playHandler_preserves {Q : RTPdumpFileSource P → Prop}
    (htransmit : ∀ s, Q s → Q s.playTransmit.2)
    (hended : ∀ s b r, RTPdumpFileReader.readNextPacket disk s.mReader s.buffer = some (0, b, r) →
      Q s → Q { s with mReader := r, buffer := b })
    (hfetch : ∀ s n b r, RTPdumpFileReader.readNextPacket disk s.mReader s.buffer = some (n + 1, b, r) →
      Q s → Q (s.hold disk b r).noteRtp)
    (hstamp : ∀ s client speed, s.speedDivisor = some speed → Q s → Q (s.stamp client speed))
    (hplace : ∀ s, Q s → Q s.place.2) {client : Client} {ok : Bool}
    (h : playHandler disk fuel s client = some (ok, s')) (hs : Q s) : Q s' := by
  induction fuel generalizing s client s' ok with
  | zero => cases h
  | succ fuel ih =>
    have hsent : Q (if client = .play then s.playTransmit.2 else s) := by
      split
      · exact htransmit s hs
      · exact hs
    have hagain {u v : RTPdumpFileSource P} {missing : Bool} (hu : Q u)
        (hv : prefetch (fun s => (playHandler disk fuel s .init).map Prod.snd) client missing u = some v) : Q v := by
      rcases prefetch_cases hv with hcall | rfl
      · obtain ⟨⟨ok, w⟩, hcall', rfl⟩ := Option.map_eq_some_iff.mp hcall
        exact ih hcall' hu
      · exact hu
    rw [playHandler] at h
    generalize (if client = .play then s.playTransmit.2 else s) = t at h hsent
    dsimp only at h
    split at h
    · obtain ⟨-, rfl⟩ := Prod.mk.inj (Option.some.inj h)
      exact hsent
    · split at h
      · cases h
      · rename_i b r hread
        obtain ⟨-, rfl⟩ := Prod.mk.inj (Option.some.inj h)
        exact hended t b r hread hsent
      · rename_i n b r hread
        simp only [Option.bind_eq_some_iff, Option.map_eq_some_iff] at h
        obtain ⟨s1, h1, speed, hspeed, s2, h2, s3, h3, hlast⟩ := h
        have hfetched := hagain (hfetch t n b r hread hsent) h1
        have hstamped := hagain (hagain (hstamp s1 client speed hspeed hfetched) h2) h3
        have hplaced := hplace s3 hstamped
        rwa [hlast] at hplaced

/-- A seek to the beginning or to where the source is does nothing. -/
theorem seek_stay (hpos : pos = 0 ∨ pos = s.mPos) : s.seek disk pos (fuel + 1) = some (exitSuccess, s) := by
  rw [seek]
  rcases hpos with hzero | heq
  · rw [if_pos hzero]
  · rw [if_neg heq.symm.not_lt, if_neg heq.not_lt, ite_self]

/-- A seek forwards fails, or moves the reader and perhaps the source and loops. -/
theorem seek_forward (hpos : pos ≠ 0) (hlt : s.mPos < pos) {start : ℤ} {r : RTPdumpFileReader P}
    (hsought : s.mReader.setSeekPosition disk pos = (start, r)) : s.seek disk pos (fuel + 1) =
      if start = -1 then some (exitFailure, { s with mReader := r })
      else
        (scan disk pos (handlerFuel disk { s with mReader := r } + 1)
          { s with mReader := r, mPos := if start = 0 then s.mPos else start }).map fun s => (exitSuccess, s) := by
  rw [seek, if_neg hpos, if_pos hlt]
  simp only [hsought]
  by_cases hzero : start = 0
  · simp only [if_pos hzero, if_neg (not_not.mpr hzero)]
  · simp only [if_neg hzero, if_pos hzero]
    rfl

/-- A seek backwards starts again. -/
theorem seek_back (hpos : pos ≠ 0) (hgt : pos < s.mPos) : s.seek disk pos (fuel + 1) =
    (s.restart disk).bind fun s => (s.seek disk pos fuel).map fun result => (exitSuccess, result.2) := by
  rw [seek, if_neg hpos, if_neg hgt.not_gt, if_pos hgt]

/-- What the handler keeps, the loop of a seek keeps. -/
theorem scan_preserves {Q : RTPdumpFileSource P → Prop}
    (hcall : ∀ s s' fuel ok, playHandler disk fuel s .seek = some (ok, s') → Q s → Q s')
    (h : s.scan disk pos fuel = some s') (hs : Q s) : Q s' := by
  induction fuel generalizing s with
  | zero => cases h
  | succ fuel ih =>
    rw [scan] at h
    split at h
    · obtain ⟨⟨ok, t⟩, hnext, hrest⟩ := Option.bind_eq_some_iff.mp h
      exact ih hrest (hcall s t _ ok hnext hs)
    · exact Option.some.inj h ▸ hs

/-- What the handler, a move of the reader and a restart keep, a seek keeps. -/
theorem seek_preserves {Q : RTPdumpFileSource P → Prop} {code : ℤ}
    (hcall : ∀ s s' fuel ok, playHandler disk fuel s .seek = some (ok, s') → Q s → Q s')
    (hmove : ∀ s mPos, Q s → Q { s with mReader := (s.mReader.setSeekPosition disk pos).2, mPos := mPos })
    (hrestart : ∀ s s', s.restart disk = some s' → Q s → Q s')
    (h : s.seek disk pos fuel = some (code, s')) (hs : Q s) : Q s' := by
  induction fuel generalizing s code with
  | zero => cases h
  | succ fuel ih =>
    by_cases hpos : pos = 0
    · rw [seek_stay (Or.inl hpos)] at h
      obtain ⟨-, rfl⟩ := Prod.mk.inj (Option.some.inj h)
      exact hs
    · rcases lt_trichotomy s.mPos pos with hlt | heq | hgt
      · have hmoved := fun mPos => hmove s mPos hs
        rcases hsought : s.mReader.setSeekPosition disk pos with ⟨start, r⟩
        rw [seek_forward hpos hlt hsought] at h
        rw [hsought] at hmoved
        split at h
        · obtain ⟨-, rfl⟩ := Prod.mk.inj (Option.some.inj h)
          exact hmoved s.mPos
        · obtain ⟨t, hscan, hresult⟩ := Option.map_eq_some_iff.mp h
          obtain ⟨-, rfl⟩ := Prod.mk.inj hresult
          exact scan_preserves hcall hscan (hmoved _)
      · rw [seek_stay (Or.inr heq.symm)] at h
        obtain ⟨-, rfl⟩ := Prod.mk.inj (Option.some.inj h)
        exact hs
      · rw [seek_back hpos hgt] at h
        obtain ⟨t, hstart, hrest⟩ := Option.bind_eq_some_iff.mp h
        obtain ⟨⟨c, u⟩, hseek, hresult⟩ := Option.map_eq_some_iff.mp hrest
        obtain ⟨-, rfl⟩ := Prod.mk.inj hresult
        exact ih hseek (hrestart s t hstart hs)

/-- A reader without an open file, or one which reads a chunk. -/
def ReaderSound (r : RTPdumpFileReader P) : Prop := r.mActiveFile = none ∨ r.Reading

theorem ReaderSound.openChunk {r : RTPdumpFileReader P} (h : ReaderSound r) :
    ReaderSound (RTPdumpFileReader.openChunk disk r).2 := by
  unfold RTPdumpFileReader.openChunk
  split
  next => exact h
  next chunk hchunk =>
    split
    next => exact Or.inl rfl
    next bytes hbytes =>
      obtain ⟨hlt, -⟩ := List.getElem?_eq_some_iff.mp hchunk
      exact Or.inr ⟨Option.some_ne_none _, hlt.le⟩

theorem ReaderSound.readHeader {r : RTPdumpFileReader P} (h : ReaderSound r) : ReaderSound r.readHeader := by
  unfold RTPdumpFileReader.readHeader
  split
  next => exact h
  next f hopen =>
    rcases h with hclosed | hreading
    · rw [hopen] at hclosed
      cases hclosed
    · exact Or.inr ⟨Option.some_ne_none _, hreading.index⟩

theorem ReaderSound.resetReader {r : RTPdumpFileReader P} (h : ReaderSound r) :
    ReaderSound (r.resetReader disk) := by
  have hzero : ReaderSound { r with mIndex := 0 } :=
    h.imp id fun hreading => ⟨hreading.active, Nat.zero_le _⟩
  unfold RTPdumpFileReader.resetReader
  dsimp only
  split
  · exact hzero.openChunk.readHeader
  · exact hzero.openChunk

theorem ReaderSound.setSeekPosition {r : RTPdumpFileReader P} (h : ReaderSound r) (pos : ℤ) :
    ReaderSound (r.setSeekPosition disk pos).2 := by
  unfold RTPdumpFileReader.setSeekPosition
  split
  · exact h
  · split
    next => exact h
    next i hfind =>
      have hindex : i ≤ r.mVideoData.totalChunk := by
        have hmem := List.mem_range.mp (List.mem_of_find?_eq_some hfind)
        omega
      have hmoved : ReaderSound { r with mIndex := i } := h.imp id fun hreading => ⟨hreading.active, hindex⟩
      dsimp only
      split
      · exact hmoved.openChunk.readHeader
      · exact hmoved.openChunk

theorem resetReader_mVideoData (r : RTPdumpFileReader P) :
    (r.resetReader disk).mVideoData = r.mVideoData := by
  unfold RTPdumpFileReader.resetReader
  dsimp only
  split <;> simp

theorem setSeekPosition_mVideoData (r : RTPdumpFileReader P) (pos : ℤ) :
    (r.setSeekPosition disk pos).2.mVideoData = r.mVideoData := by
  unfold RTPdumpFileReader.setSeekPosition
  split
  · rfl
  · split
    · rfl
    · dsimp only
      split <;> simp

namespace Sound

theorem rewound (h : Sound data s) : Sound data (s.rewound disk) :=
  ⟨(resetReader_mVideoData _).trans h.data_eq, ReaderSound.resetReader h.reader, rfl, Nat.two_pow_pos 32⟩

/-- The reader moves to the chunk of a position, and the source perhaps too. -/
theorem sought (h : Sound data s) (pos mPos : ℤ) :
    Sound data { s with mReader := (s.mReader.setSeekPosition disk pos).2, mPos := mPos } :=
  ⟨(setSeekPosition_mVideoData _ _).trans h.data_eq, ReaderSound.setSeekPosition h.reader pos, h.end_eq, h.offset_lt⟩

theorem restart (h : Sound data s) (hrestart : s.restart disk = some s') : Sound data s' := by
  obtain ⟨⟨ok, t⟩, hcall, rfl⟩ := Option.map_eq_some_iff.mp hrestart
  exact (playHandler_sound h.rewound hcall).1

theorem seek {code : ℤ} (h : Sound data s) (hseek : s.seek disk pos fuel = some (code, s')) : Sound data s' :=
  seek_preserves (fun _ _ _ _ hcall hs => (playHandler_sound hs hcall).1) (fun _ mPos hs => hs.sought pos mPos)
    (fun _ _ hrestart hs => hs.restart hrestart) hseek h

end Sound

/-- The source of every state of a session is sound. -/
theorem Reachable.sound {speeds : Set (Option ℚ)} (h : Reachable disk data speeds s) : Sound data s := by
  induction h with
  | new h =>
    obtain ⟨⟨ok, t⟩, hcall, rfl⟩ := Option.map_eq_some_iff.mp h
    exact (playHandler_sound (sound_initial disk data _ _) hcall).1
  | play hs h ih =>
    obtain ⟨⟨ok, t⟩, hcall, hresult⟩ := Option.map_eq_some_iff.mp h
    obtain ⟨-, -, rfl⟩ : _ ∧ _ ∧ t = _ := by simpa using hresult
    exact (playHandler_sound ih hcall).1
  | seek hs h ih => exact ih.seek h
  | setSpeed hspeed hs ih => exact ⟨ih.data_eq, ih.reader, ih.end_eq, ih.offset_lt⟩

end RTPdumpFileSource

end RecordingAgent.RtspPlay
