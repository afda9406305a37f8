import RecordingAgent.RtspPlay.Session

/-!
# Where a seek lands

The loop of a seek compares a position in thousandths of a second with offsets in hundredths, counted from
the first packet. So the packet in the buffer is the one at the position exactly when it is also the first
behind the start of the loop whose number reaches it, or was in the buffer before and no packet is fetched.
-/

namespace RecordingAgent.RtspPlay

open Foundation

/-- A recording: chunks with valid headers and packets which are not empty, positions which add up the
durations of the chunks, and packets in the order of their times. -/
structure SeekableRecording (P : Type) where
  data : VideoChunkT P
  recorded : P → RecordedChunk
  valid : ∀ chunk ∈ data.chunckList, (recorded chunk.path).HeaderValid ∧
    (recorded chunk.path).header.length = filePfxSize + chunkHdrSize
  full : ∀ chunk ∈ data.chunckList, ∀ p ∈ (recorded chunk.path).records, p.length ≠ 0
  duration_nonneg : ∀ chunk ∈ data.chunckList, 0 ≤ chunk.duration
  position_eq : ∀ i chunk, data.chunckList[i]? = some chunk →
    chunk.position = ((data.chunckList.take i).map ChunkT.duration).sum
  ordered : (data.chunckList.flatMap fun chunk => (recorded chunk.path).records).Pairwise (·.time ≤ ·.time)
  ne_nil : (data.chunckList.flatMap fun chunk => (recorded chunk.path).records) ≠ []

namespace SeekableRecording

variable {P : Type} (rec : SeekableRecording P)

/-- The files of the chunks. -/
def disk : P → Option (List UInt8) := diskOf rec.recorded

/-- The packets of the recording. -/
def packets : List RDBuffer := rec.data.chunckList.flatMap fun chunk => (rec.recorded chunk.path).records

/-- How many packets are behind the first one at or after the position, or behind the last one. The offsets
count hundredths of a second and the position thousandths. -/
def behind (pos : ℤ) : ℕ := (rec.packets.dropWhile fun p => 10 * (p.time : ℤ) < pos).tail.length

/-- The states of a session with this recording. A call of `Play` before the next packet is due and a call
of `Pause` change nothing. -/
inductive Reachable : RTPdumpFileSource P → Prop
  | new {audioTransport : Bool} {uninitialised : ℤ} {s : RTPdumpFileSource P}
      (h : RTPdumpFileSource.new rec.disk rec.data audioTransport uninitialised = some s) : Reachable s
  | play {s s' : RTPdumpFileSource P} {ok : Bool} {sent : Option (ℕ × List UInt8)} (hs : Reachable s)
      (h : s.play rec.disk = some (ok, sent, s')) : Reachable s'
  | seek {s s' : RTPdumpFileSource P} {pos code : ℤ} {fuel : ℕ} (hs : Reachable s)
      (h : s.seek rec.disk pos fuel = some (code, s')) : Reachable s'
  | setSpeed {s : RTPdumpFileSource P} (speed : Option ℚ) (hs : Reachable s) : Reachable (s.setSpeed speed)

/-- After the seek the buffer holds the first packet at or after the position, or the last packet. -/
def Lands (pos : ℤ) (s : RTPdumpFileSource P) : Prop :=
  ∃ fuel code s', s.seek rec.disk pos fuel = some (code, s') ∧ s'.held = some (rec.behind pos)

end SeekableRecording

namespace RTPdumpFileSource

variable {P : Type} {disk : P → Option (List UInt8)} {s : RTPdumpFileSource P}

/-- Where `setSeekPosition` says that a chunk starts. -/
def chunkStart (s : RTPdumpFileSource P) (i : ℕ) : ℤ :=
  toInt ((s.mReader.mVideoData.chunckList[i]?.map ChunkT.position).getD 0)

/-- For a seek forwards: the packet with so many behind it is fetched as the first whose number reaches the
position, from the packets left or from those of the chunk which is sought on; or it is in the buffer, and
no packet is fetched. -/
def ForwardMeets (disk : P → Option (List UInt8)) (s : RTPdumpFileSource P) (pos : ℤ) (behind : ℕ) : Prop :=
  if s.mReader.inChunk pos s.mReader.mIndex then s.Reaches pos (s.mReader.unread disk) behind
  else
    match s.mReader.findChunk pos with
    | none => s.held = some behind
    | some i =>
      if s.chunkStart i = -1 ∨ pos ≤ (if s.chunkStart i = 0 then s.mPos else s.chunkStart i) then
        s.held = some behind
      else s.Reaches pos (unreadChunks disk (s.mReader.mVideoData.chunckList.drop i)) behind

end RTPdumpFileSource

namespace SeekableRecording

variable {P : Type}

/-- When a seek lands where it was asked to: at position zero and at the position of the source the right
packet is in the buffer already, forwards it is what the loop finds, and backwards it is so for the source
which was restarted. -/
inductive SeekMeets (rec : SeekableRecording P) (pos : ℤ) : RTPdumpFileSource P → Prop
  | stay {s : RTPdumpFileSource P} (hpos : pos = 0 ∨ pos = s.mPos) (h : s.held = some (rec.behind pos)) :
      SeekMeets rec pos s
  | forward {s : RTPdumpFileSource P} (hpos : pos ≠ 0) (hlt : s.mPos < pos)
      (h : s.ForwardMeets rec.disk pos (rec.behind pos)) : SeekMeets rec pos s
  | back {s s' : RTPdumpFileSource P} (hpos : pos ≠ 0) (hlt : pos < s.mPos)
      (hrestart : s.restart rec.disk = some s') (h : SeekMeets rec pos s') : SeekMeets rec pos s

variable {rec : SeekableRecording P} {pos : ℤ} {s s' : RTPdumpFileSource P} {r : RTPdumpFileReader P}

/-- Every chunk of the recording can be opened, and its packets are then left. -/
theorem openChunk_spec (rec : SeekableRecording P) (hdata : r.mVideoData = rec.data)
    (hindex : r.mIndex < rec.data.totalChunk) :
    (RTPdumpFileReader.openChunk rec.disk r).1 = true ∧
      (RTPdumpFileReader.openChunk rec.disk r).2.readHeader.Reading ∧
      (RTPdumpFileReader.openChunk rec.disk r).2.readHeader.unread rec.disk =
        unreadChunks rec.disk (rec.data.chunckList.drop r.mIndex) ∧
      (RTPdumpFileReader.openChunk rec.disk r).2.readHeader.mVideoData = rec.data := by
  obtain ⟨chunk, hchunk⟩ : ∃ chunk, r.mVideoData.chunckList[r.mIndex]? = some chunk := by
    rw [hdata]
    exact ⟨_, List.getElem?_eq_getElem hindex⟩
  have hopen : (RTPdumpFileReader.openChunk rec.disk r).1 = true := by
    simp [RTPdumpFileReader.openChunk, hchunk, disk, diskOf]
  obtain ⟨hreading, hunread⟩ := (RTPdumpFileReader.openChunk_spec rec.disk r).1 hopen
  exact ⟨hopen, hreading, hdata ▸ hunread, by simp [hdata]⟩

/-- All packets of the recording come from its chunks. -/
theorem unreadChunks_eq (rec : SeekableRecording P) :
    unreadChunks rec.disk rec.data.chunckList = rec.packets :=
  unreadChunks_diskOf rec.valid rec.full

theorem totalChunk_pos (rec : SeekableRecording P) : 0 < rec.data.totalChunk := by
  apply List.length_pos_iff.mpr
  intro hnil
  exact rec.ne_nil (by rw [hnil, List.flatMap_nil])

/-- A reader which was reset has all packets left. -/
theorem resetReader_spec (hdata : r.mVideoData = rec.data) :
    (r.resetReader rec.disk).Reading ∧ (r.resetReader rec.disk).unread rec.disk = rec.packets ∧
      (r.resetReader rec.disk).mVideoData = rec.data := by
  obtain ⟨hopen, hreading, hunread, hdata'⟩ :=
    openChunk_spec rec (r := { r with mIndex := 0 }) hdata rec.totalChunk_pos
  rw [RTPdumpFileReader.resetReader, if_pos hopen]
  exact ⟨hreading, hunread.trans rec.unreadChunks_eq, hdata'⟩

/-- Seeking the chunk of a position: the reader is left where it is, or at the first packet of the chunk. -/
theorem setSeekPosition_spec {i : ℕ} (hdata : r.mVideoData = rec.data) (hother : ¬r.inChunk pos r.mIndex)
    (hfind : r.findChunk pos = some i) :
    ∃ r', r.setSeekPosition rec.disk pos =
        (toInt ((r.mVideoData.chunckList[i]?.map ChunkT.position).getD 0), r') ∧ r'.Reading ∧
      r'.unread rec.disk = unreadChunks rec.disk (rec.data.chunckList.drop i) ∧ r'.mVideoData = rec.data := by
  have hindex : i < rec.data.totalChunk := by
    have hmem := List.mem_of_find?_eq_some hfind
    rw [List.mem_range, hdata] at hmem
    omega
  obtain ⟨hopen, hreading, hunread, hdata'⟩ :=
    openChunk_spec rec (r := { r with mIndex := i }) hdata hindex
  simp only [RTPdumpFileReader.setSeekPosition, if_neg hother, hfind, if_pos hopen]
  exact ⟨_, rfl, hreading, hunread, hdata'⟩

/-- What holds of every state of a session. -/
structure Ready (rec : SeekableRecording P) (s : RTPdumpFileSource P) : Prop where
  sound : RTPdumpFileSource.Sound rec.data s
  first_nonneg : 0 ≤ s.mFirst

/-- A source which fetches for the first time knows the first packet then. -/
theorem ready_of_prefetch {start : RTPdumpFileSource P} {fuel : ℕ} (hsound : RTPdumpFileSource.Sound rec.data start)
    (hunread : start.mReader.unread rec.disk = rec.packets)
    (h : (RTPdumpFileSource.playHandler rec.disk fuel start .init).map Prod.snd = some s) : rec.Ready s := by
  obtain ⟨⟨ok, s⟩, hcall, rfl⟩ := Option.map_eq_some_iff.mp h
  obtain ⟨hsound', -, hplaced, hended⟩ := RTPdumpFileSource.playHandler_sound hsound hcall
  cases ok with
  | true => exact ⟨hsound', hplaced rfl⟩
  | false => exact absurd (hunread.symm.trans (hended rfl).2) rec.ne_nil

theorem ready_restart (hready : rec.Ready s) (h : s.restart rec.disk = some s') : rec.Ready s' := by
  obtain ⟨hreading, hunread, hdata⟩ := resetReader_spec hready.sound.data_eq
  exact ready_of_prefetch ⟨hdata, Or.inr hreading, rfl, Nat.two_pow_pos 32⟩ hunread h

theorem ready_new {audioTransport : Bool} {uninitialised : ℤ}
    (h : RTPdumpFileSource.new rec.disk rec.data audioTransport uninitialised = some s) : rec.Ready s := by
  obtain ⟨-, hreading, hunread, hdata⟩ := openChunk_spec rec
    (r := { mActiveFile := none
            mVideoData := rec.data
            mIndex := 0
            audioPresent := false
            videoPresent := false }) rfl rec.totalChunk_pos
  exact ready_of_prefetch ⟨hdata, Or.inr hreading, rfl, Nat.two_pow_pos 32⟩ (hunread.trans rec.unreadChunks_eq) h

/-- The handler keeps a session ready. -/
theorem ready_playHandler {client : Client} {fuel : ℕ} {ok : Bool} (hready : rec.Ready s)
    (h : RTPdumpFileSource.playHandler rec.disk fuel s client = some (ok, s')) : rec.Ready s' := by
  obtain ⟨hsound, -, hplaced, hended⟩ := RTPdumpFileSource.playHandler_sound hready.sound h
  cases ok with
  | true => exact ⟨hsound, hplaced rfl⟩
  | false => exact ⟨hsound, (hended rfl).1 ▸ hready.first_nonneg⟩

/-- The loop of a seek which goes on, from another position, with a reader at the begin of a chunk. -/
theorem scan_chunk_iff {i behind : ℕ} {t : RTPdumpFileSource P} (hready : rec.Ready s)
    (hreading : t.mReader.Reading) (hdata : t.mReader.mVideoData = rec.data)
    (hunread : t.mReader.unread rec.disk = unreadChunks rec.disk (rec.data.chunckList.drop i))
    (hsource : t = { s with mReader := t.mReader, mPos := t.mPos }) (hbefore : t.mPos < pos) :
    (∃ s', t.scan rec.disk pos (t.handlerFuel rec.disk + 1) = some s' ∧ s'.held = some behind) ↔
      s.Reaches pos (unreadChunks rec.disk (s.mReader.mVideoData.chunckList.drop i)) behind := by
  have hend : t.mEnd = s.mEnd := by rw [hsource]
  have hbuffer : t.buffer = s.buffer := by rw [hsource]
  have hfirst : t.mFirst = s.mFirst := by rw [hsource]
  have hspeed : t.mSpeed = s.mSpeed := by rw [hsource]
  have hsound : RTPdumpFileSource.Sound rec.data t :=
    ⟨hdata, Or.inr hreading, hend ▸ hready.sound.end_eq, hbuffer ▸ hready.sound.offset_lt⟩
  refine (RTPdumpFileSource.scan_held_iff hsound (hfirst ▸ hready.first_nonneg) hbefore le_rfl).trans ?_
  rw [hunread, hready.sound.data_eq, RTPdumpFileSource.Reaches, RTPdumpFileSource.Reaches,
    RTPdumpFileSource.speedDivisor, RTPdumpFileSource.speedDivisor, hspeed, hfirst]

/-- A seek forwards holds the packet with so many behind it exactly when it was to. -/
theorem seek_forward_iff {fuel behind : ℕ} (hready : rec.Ready s) (hpos : pos ≠ 0) (hlt : s.mPos < pos) :
    (∃ code s', s.seek rec.disk pos (fuel + 1) = some (code, s') ∧ s'.held = some behind) ↔
      s.ForwardMeets rec.disk pos behind := by
  have hdata := hready.sound.data_eq
  have hscan {t : RTPdumpFileSource P} {n : ℕ} :
      (∃ code s', ((t.scan rec.disk pos n).map fun s => (exitSuccess, s)) = some (code, s') ∧
        s'.held = some behind) ↔ ∃ s', t.scan rec.disk pos n = some s' ∧ s'.held = some behind := by
    cases t.scan rec.disk pos n <;> simp
  rw [RTPdumpFileSource.ForwardMeets]
  split
  · -- the position is in the chunk which is open
    rename_i hhere
    have hsought : s.mReader.setSeekPosition rec.disk pos = (0, s.mReader) := by
      rw [RTPdumpFileReader.setSeekPosition, if_pos hhere]
    rw [RTPdumpFileSource.seek_forward hpos hlt hsought, if_neg (by decide), if_pos rfl, hscan]
    exact RTPdumpFileSource.scan_held_iff hready.sound hready.first_nonneg hlt le_rfl
  · rename_i hother
    cases hfind : s.mReader.findChunk pos with
    | none =>
      have hsought : s.mReader.setSeekPosition rec.disk pos = (-1, s.mReader) := by
        rw [RTPdumpFileReader.setSeekPosition, if_neg hother, hfind]
      rw [RTPdumpFileSource.seek_forward hpos hlt hsought]
      simp
    | some i =>
      obtain ⟨r', hsought, hreading, hunread, hdata'⟩ := setSeekPosition_spec hdata hother hfind
      have hstart : s.mReader.setSeekPosition rec.disk pos = (s.chunkStart i, r') := hsought
      rw [RTPdumpFileSource.seek_forward hpos hlt hstart]
      by_cases hlost : s.chunkStart i = -1
      · simp [hlost]
      rw [if_neg hlost, hscan]
      by_cases hreached : pos ≤ if s.chunkStart i = 0 then s.mPos else s.chunkStart i
      · rw [RTPdumpFileSource.scan, if_neg (not_lt.mpr hreached)]
        simp [hreached]
      · simp only [hlost, hreached, or_self, if_false]
        exact scan_chunk_iff hready hreading hdata' hunread rfl (not_le.mp hreached)

/-- A seek keeps a session ready. -/
theorem ready_seek {fuel : ℕ} {code : ℤ} (hready : rec.Ready s)
    (h : s.seek rec.disk pos fuel = some (code, s')) : rec.Ready s' := by
  refine RTPdumpFileSource.seek_preserves (Q := rec.Ready) ?_ ?_ ?_ h hready
  · intro t t' fuel ok hcall ht
    exact ready_playHandler ht hcall
  · intro t mPos ht
    exact ⟨ht.sound.sought pos mPos, ht.first_nonneg⟩
  · intro t t' hrestart ht
    exact ready_restart ht hrestart

/-- Every state of a session is ready. -/
theorem ready_of_reachable (h : rec.Reachable s) : rec.Ready s := by
  induction h with
  | new h => exact ready_new h
  | play hs h ih =>
    obtain ⟨⟨ok, t⟩, hcall, hresult⟩ := Option.map_eq_some_iff.mp h
    obtain ⟨-, -, rfl⟩ : _ ∧ _ ∧ t = _ := by simpa using hresult
    exact ready_playHandler ih hcall
  | seek hs h ih => exact ready_seek ih h
  | setSpeed speed hs ih =>
    exact ⟨⟨ih.sound.data_eq, ih.sound.reader, ih.sound.end_eq, ih.sound.offset_lt⟩, ih.first_nonneg⟩

/-- If a seek lands where it was asked to, the condition holds. -/
theorem seekMeets_of_seek {fuel : ℕ} {code : ℤ} (hready : rec.Ready s)
    (h : s.seek rec.disk pos fuel = some (code, s')) (hheld : s'.held = some (rec.behind pos)) :
    rec.SeekMeets pos s := by
  induction fuel generalizing s code with
  | zero => nomatch h
  | succ fuel ih =>
    by_cases hpos : pos = 0
    · rw [RTPdumpFileSource.seek_stay (Or.inl hpos)] at h
      obtain ⟨-, rfl⟩ := Prod.mk.inj (Option.some.inj h)
      exact .stay (Or.inl hpos) hheld
    · rcases lt_trichotomy s.mPos pos with hlt | heq | hgt
      · exact .forward hpos hlt ((seek_forward_iff hready hpos hlt).mp ⟨code, s', h, hheld⟩)
      · rw [RTPdumpFileSource.seek_stay (Or.inr heq.symm)] at h
        obtain ⟨-, rfl⟩ := Prod.mk.inj (Option.some.inj h)
        exact .stay (Or.inr heq.symm) hheld
      · rw [RTPdumpFileSource.seek_back hpos hgt] at h
        obtain ⟨t, hrestart, hseek⟩ := Option.bind_eq_some_iff.mp h
        obtain ⟨⟨c, u⟩, hseek', hresult⟩ := Option.map_eq_some_iff.mp hseek
        obtain ⟨-, rfl⟩ := Prod.mk.inj hresult
        exact .back hpos hgt hrestart (ih (ready_restart hready hrestart) hseek')

/-- If the condition holds, a seek lands where it was asked to. -/
theorem lands_of_seekMeets (hready : rec.Ready s) (h : rec.SeekMeets pos s) : rec.Lands pos s := by
  induction h with
  | @stay s hpos hheld => exact ⟨1, exitSuccess, s, RTPdumpFileSource.seek_stay hpos, hheld⟩
  | forward hpos hlt hmeets => exact ⟨1, (seek_forward_iff hready hpos hlt).mpr hmeets⟩
  | back hpos hgt hrestart _ ih =>
    obtain ⟨fuel, code, t, hseek, hheld⟩ := ih (ready_restart hready hrestart)
    refine ⟨fuel + 1, exitSuccess, t, ?_, hheld⟩
    rw [RTPdumpFileSource.seek_back hpos hgt, hrestart, Option.bind_some, hseek, Option.map_some]

/-- A video packet at this many hundredths of a second. -/
def packetAt (offset : ℕ) : RDBuffer where
  length := 12
  plen := 12
  offset := offset
  data := List.replicate 12 1

/-- A chunk of two seconds with a packet at its beginning and one after a second. -/
def twoPacketsChunk : RecordedChunk where
  header := vramagic ++ List.replicate 2307 0
  records := [packetAt 0, packetAt 100]
  recordable := by
    intro p hp
    rcases List.mem_pair.mp hp with rfl | rfl <;> exact ⟨rfl, by decide, by decide, by decide⟩

/-- The recording of that chunk only. -/
def twoPackets : SeekableRecording Unit where
  data :=
    { chunckList := [{ path := (), duration := 2000, position := 0 }]
      total_le := by decide }
  recorded := fun _ => twoPacketsChunk
  valid := fun _ _ => by decide +kernel
  full := by decide
  duration_nonneg := by decide
  position_eq := by
    intro i chunk hchunk
    cases i with
    | zero =>
      obtain rfl := Option.some.inj hchunk
      rfl
    | succ i => nomatch hchunk
  ordered := by decide
  ne_nil := by decide

/-- The first packet is in the buffer, and no chunk is found for half a second. -/
theorem new_twoPackets : (RTPdumpFileSource.new twoPackets.disk twoPackets.data false 0).map
    (fun s => (s.held, s.mPos, s.mReader.inChunk 500 s.mReader.mIndex, s.mReader.findChunk 500)) =
      some (some 1, 0, false, none) := by
  decide +kernel

end SeekableRecording

end RecordingAgent.RtspPlay
