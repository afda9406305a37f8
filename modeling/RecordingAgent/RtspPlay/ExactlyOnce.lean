import RecordingAgent.RtspPlay.Replay

/-!
# Every packet is sent exactly once

After any seeks and speeds, the calls of `Play` send the packet in the buffer and then the packets which the reader has
left: each RTP packet of a track with a transport once, in the order of the recording, and no other bytes of it are
changed than its sequence number and its timestamp. The call which finds that the recording has ended comes after as
many others as packets are left.
-/

namespace RecordingAgent.RtspPlay

open Foundation

/-- A packet of a track without its sequence number and its timestamp. -/
def unstamped (track : ℕ) (packet : List UInt8) : ℕ × List UInt8 := (track, packet.take 2 ++ packet.drop 8)

/-- Playback sends the RTP packets of the tracks with a transport. -/
def RDBuffer.Sends (audioTransport : Bool) (p : RDBuffer) : Prop := p.plen ≠ 0 ∧ (p.track = 0 ∨ audioTransport = true)

instance (audioTransport : Bool) (p : RDBuffer) : Decidable (p.Sends audioTransport) :=
  inferInstanceAs (Decidable (_ ∧ _))

/-- What playback is to send of these packets. -/
def sendable (audioTransport : Bool) (packets : List RDBuffer) : List (ℕ × List UInt8) :=
  (packets.filter fun p => p.Sends audioTransport).map fun p => unstamped p.track p.data

/-- The packets of a chunk which reads return were written as a whole, with a header up to the timestamp. -/
def WholePackets {P : Type} (disk : P → Option (List UInt8)) (data : VideoChunkT P) : Prop :=
  ∀ chunk ∈ data.chunckList, ∀ bytes ∈ disk chunk.path, ∀ p ∈ chunkPackets bytes, p.Whole

theorem sendable_cons (audioTransport : Bool) (p : RDBuffer) (packets : List RDBuffer) :
    sendable audioTransport (p :: packets) =
      (if p.Sends audioTransport then [unstamped p.track p.data] else []) ++ sendable audioTransport packets := by
  rw [sendable, List.filter_cons]
  by_cases hsends : p.Sends audioTransport
  · rw [if_pos (decide_eq_true hsends), if_pos hsends]
    rfl
  · rw [if_neg (by simpa using hsends), if_neg hsends]
    rfl

/-- Stamping changes the sequence number and the timestamp only. -/
theorem unstamped_stampPacket (client : Client) (speed : ℕ) (t : TrackState) (track : ℕ) {data : List UInt8}
    (h : 8 ≤ data.length) : unstamped track (stampPacket client speed t data).2 = unstamped track data := by
  have hfront : (data.take 2).length = 2 := by rw [List.length_take]; omega
  have hbytes := stampPacket_data client speed t h
  rw [unstamped, unstamped, hbytes, List.take_left' hfront, ← List.append_assoc, ← List.append_assoc]
  rw [List.drop_left' (by simp only [List.length_append, hfront, leBytes_length])]

namespace RTPdumpFileSource

variable {P : Type} {disk : P → Option (List UInt8)} {data : VideoChunkT P} {speeds : Set (Option ℚ)}
  {s s' t : RTPdumpFileSource P} {client : Client} {fuel : ℕ}

/-- What is to be sent from a state on: the packet in the buffer, and what the reader has left. -/
def toSend (disk : P → Option (List UInt8)) (s : RTPdumpFileSource P) : List (ℕ × List UInt8) :=
  s.playTransmit.1.toList.map (fun sent => unstamped sent.1 sent.2) ++
    sendable s.audioTransport (s.mReader.unread disk)

/-- What so many calls of `Play` send from a state on, with any of these speeds set between them; each of them finds
that the recording goes on. -/
inductive Plays (disk : P → Option (List UInt8)) (speeds : Set (Option ℚ)) (s : RTPdumpFileSource P) :
    ℕ → List (ℕ × List UInt8) → RTPdumpFileSource P → Prop
  | start : Plays disk speeds s 0 [] s
  | play {n : ℕ} {sent : List (ℕ × List UInt8)} {t t' : RTPdumpFileSource P} {packet : Option (ℕ × List UInt8)}
      (hplays : Plays disk speeds s n sent t) (h : t.play disk = some (true, packet, t')) :
      Plays disk speeds s (n + 1) (sent ++ packet.toList) t'
  | setSpeed {n : ℕ} {sent : List (ℕ × List UInt8)} {t : RTPdumpFileSource P} {speed : Option ℚ}
      (hspeed : speed ∈ speeds) (hplays : Plays disk speeds s n sent t) :
      Plays disk speeds s n sent (t.setSpeed speed)

end RTPdumpFileSource

/-- The packets of the chunks from any one on are whole. -/
theorem WholePackets.of_mem_drop {P : Type} {disk : P → Option (List UInt8)} {data : VideoChunkT P}
    (h : WholePackets disk data) {n : ℕ} {p : RDBuffer} (hp : p ∈ unreadChunks disk (data.chunckList.drop n)) :
    p.Whole := by
  have hall : ∀ chunks : List (ChunkT P), (∀ chunk ∈ chunks, chunk ∈ data.chunckList) →
      ∀ q ∈ unreadChunks disk chunks, q.Whole := by
    intro chunks hsubset q hq
    induction chunks with
    | nil => cases hq
    | cons chunk rest ih =>
      rw [List.forall_mem_cons] at hsubset
      rw [unreadChunks] at hq
      split at hq
      next => cases hq
      next bytes hbytes =>
        cases List.mem_append.mp hq with
        | inl hchunk => exact h chunk hsubset.1 bytes hbytes q hchunk
        | inr hrest => exact ih hsubset.2 hrest
  exact hall _ (fun _ => List.mem_of_mem_drop) p hp

namespace RTPdumpFileReader

variable {P : Type} {disk : P → Option (List UInt8)} {data : VideoChunkT P} {r r' : RTPdumpFileReader P}

/-- The packets of the file which is open are whole. -/
def ActiveWhole (r : RTPdumpFileReader P) : Prop := ∀ f ∈ r.mActiveFile, ∀ p ∈ recordsFrom f, p.Whole

theorem activeWhole_closed (h : r.mActiveFile = none) : r.ActiveWhole := by
  intro f hf
  rw [h] at hf
  cases hf

/-- Then so are all packets which are left. -/
theorem ActiveWhole.unread (h : r.ActiveWhole) (hall : WholePackets disk data) (hdata : r.mVideoData = data)
    {p : RDBuffer} (hp : p ∈ r.unread disk) : p.Whole := by
  unfold RTPdumpFileReader.unread at hp
  split at hp
  next => cases hp
  next f hf =>
    rw [hdata] at hp
    cases List.mem_append.mp hp with
    | inl hactive => exact h f hf p hactive
    | inr hrest => exact hall.of_mem_drop hrest

theorem activeWhole_of_unread (h : ∀ p ∈ r.unread disk, p.Whole) : r.ActiveWhole := by
  intro f hf p hp
  apply h
  rw [RTPdumpFileReader.unread, hf]
  exact List.mem_append_left _ hp

/-- A chunk which could be opened is at its first packet, and one which could not be opened leaves the open file or none. -/
theorem ActiveWhole.openChunk (h : r.ActiveWhole) (hall : WholePackets disk data) (hdata : r.mVideoData = data) :
    ((openChunk disk r).1 = true → (openChunk disk r).2.readHeader.ActiveWhole) ∧
      ((openChunk disk r).1 = false → (openChunk disk r).2.ActiveWhole) := by
  constructor
  · intro hopen
    refine @activeWhole_of_unread P disk _ fun p hp => ?_
    rw [((openChunk_spec disk r).1 hopen).2, hdata] at hp
    exact hall.of_mem_drop hp
  · intro hfail
    unfold RTPdumpFileReader.openChunk at hfail ⊢
    split
    next => exact h
    next chunk hchunk =>
      split
      next => exact activeWhole_closed rfl
      next bytes hbytes => simp [hchunk, hbytes] at hfail

theorem ActiveWhole.resetReader (h : r.ActiveWhole) (hall : WholePackets disk data) (hdata : r.mVideoData = data) :
    (r.resetReader disk).ActiveWhole := by
  have hzero : ActiveWhole { r with mIndex := 0 } := h
  obtain ⟨hopened, hfailed⟩ := hzero.openChunk hall hdata
  unfold RTPdumpFileReader.resetReader
  dsimp only
  split
  next hopen => exact hopened hopen
  next hfail => exact hfailed (Bool.eq_false_iff.mpr hfail)

theorem ActiveWhole.setSeekPosition (h : r.ActiveWhole) (hall : WholePackets disk data) (hdata : r.mVideoData = data)
    (pos : ℤ) : (r.setSeekPosition disk pos).2.ActiveWhole := by
  unfold RTPdumpFileReader.setSeekPosition
  split
  · exact h
  · split
    next => exact h
    next i hfind =>
      have hmoved : ActiveWhole { r with mIndex := i } := h
      obtain ⟨hopened, hfailed⟩ := hmoved.openChunk hall hdata
      dsimp only
      split
      next hopen => exact hopened hopen
      next hfail => exact hfailed (Bool.eq_false_iff.mpr hfail)

/-- So do the constructor, and a call which reads. -/
theorem activeWhole_new (hall : WholePackets disk data) : (new disk data).ActiveWhole := by
  rcases new_spec disk data with ⟨hclosed, -⟩ | ⟨-, hunread⟩
  · exact activeWhole_closed hclosed
  · refine @activeWhole_of_unread P disk _ fun p hp => hall.of_mem_drop (n := 0) ?_
    rwa [hunread] at hp

theorem ActiveWhole.readNextPacket {n : ℕ} {b b' : RDBuffer} (h : r.ActiveWhole) (hall : WholePackets disk data)
    (hdata : r.mVideoData = data) (hreader : r.mActiveFile = none ∨ r.Reading)
    (hread : RTPdumpFileReader.readNextPacket disk r b = some (n, b', r')) : r'.ActiveWhole := by
  refine @activeWhole_of_unread P disk _ fun p hp => ?_
  cases n with
  | zero =>
    rw [((unread_of_readNextPacket hreader hread).1 rfl).2] at hp
    cases hp
  | succ n =>
    apply h.unread hall hdata
    rw [(RTPdumpFileSource.unread_eq_cons hreader hread).2]
    exact List.mem_cons_of_mem b' hp

end RTPdumpFileReader

namespace RTPdumpFileSource

variable {P : Type} {disk : P → Option (List UInt8)} {data : VideoChunkT P} {speeds : Set (Option ℚ)}
  {s s' t : RTPdumpFileSource P} {client : Client} {fuel : ℕ}

/-- What holds of the source in every state of a session when the packets of the chunks are whole. -/
structure Orderly (data : VideoChunkT P) (s : RTPdumpFileSource P) : Prop where
  sound : Sound data s
  active : s.mReader.ActiveWhole
  whole : BufferWhole s.buffer
  track_le : s.mTrack ≤ 1

/-- Sending the packet leaves the buffer empty and the track alone. -/
theorem playTransmit_empties (htrack : s.mTrack ≤ 1) :
    s.playTransmit.2.buffer.length = 0 ∧ s.playTransmit.2.mTrack = s.mTrack := by
  unfold playTransmit
  rw [if_neg (by omega)]
  split
  next => exact ⟨rfl, rfl⟩
  next hnot =>
    split
    next => exact ⟨rfl, rfl⟩
    next hrtp => exact ⟨not_not.mp fun hne => hnot ⟨hne, hrtp⟩, rfl⟩

namespace Orderly

theorem initial (hall : WholePackets disk data) (audioTransport : Bool) (uninitialised : ℤ) :
    Orderly data (initial disk data audioTransport uninitialised) :=
  ⟨sound_initial disk data audioTransport uninitialised, RTPdumpFileReader.activeWhole_new hall,
    fun h => absurd rfl h, Nat.zero_le 1⟩

theorem playTransmit (h : Orderly data s) : Orderly data s.playTransmit.2 := by
  obtain ⟨hempty, htrack⟩ := playTransmit_empties h.track_le
  refine ⟨h.sound.playTransmit, ?_, fun hne => absurd hempty hne, htrack ▸ h.track_le⟩
  rw [(playTransmit_same s).1]
  exact h.active

theorem ended {b : RDBuffer} {r : RTPdumpFileReader P} (h : Orderly data s) (hall : WholePackets disk data)
    (hread : RTPdumpFileReader.readNextPacket disk s.mReader s.buffer = some (0, b, r)) :
    Orderly data { s with mReader := r, buffer := b } := by
  refine ⟨h.sound.read hread, h.active.readNextPacket hall h.sound.data_eq h.sound.reader hread, ?_, h.track_le⟩
  cases readNextPacket_ended hread with
  | inl hsame => exact hsame ▸ h.whole
  | inr hzero => exact fun hne => absurd hzero hne

theorem fetch {n : ℕ} {b : RDBuffer} {r : RTPdumpFileReader P} (h : Orderly data s) (hall : WholePackets disk data)
    (hread : RTPdumpFileReader.readNextPacket disk s.mReader s.buffer = some (n + 1, b, r)) :
    Orderly data (s.hold disk b r).noteRtp := by
  have hsound := (h.sound.hold hread).noteRtp
  have hactive := h.active.readNextPacket hall h.sound.data_eq h.sound.reader hread
  have hwhole : b.Whole := by
    apply h.active.unread hall h.sound.data_eq
    rw [(unread_eq_cons h.sound.reader hread).2]
    exact List.mem_cons_self
  unfold RTPdumpFileSource.noteRtp at hsound ⊢
  split at hsound
  next hrtp =>
    rw [if_pos hrtp]
    exact ⟨hsound, hactive, fun _ => hwhole, h.track_le⟩
  next hrtcp =>
    rw [if_neg hrtcp]
    exact ⟨hsound, hactive, fun _ => hwhole, h.track_le⟩

theorem stamp (h : Orderly data s) (client : Client) (speed : ℕ) : Orderly data (s.stamp client speed) := by
  obtain ⟨htrack, -, -, hdata, hlength, -⟩ := stamp_spec s client speed
  refine ⟨h.sound.stamp client speed, ?_, fun hne => ?_, htrack ▸ RDBuffer.track_le _⟩
  · rw [(sameCourse_stamp s client speed).mReader_eq]
    exact h.active
  · rw [hlength] at hne
    have hwhole := h.whole hne
    have hlong := length_stampPacket client speed (s.trackState s.buffer.track) hwhole.header
    exact ⟨by rw [hlength, hdata, hlong, hwhole.length_eq], by rw [hdata, hlong]; exact hwhole.header⟩

theorem place (h : Orderly data s) : Orderly data s.place.2 := by
  have hplaced := placedLike_place s
  obtain ⟨-, hsound, -⟩ := h.sound.place
  refine ⟨hsound, hplaced.mReader_eq ▸ h.active, fun hne => ?_, hplaced.mTrack_eq ▸ h.track_le⟩
  have hlength := hplaced.length_eq hne
  have hwhole := h.whole (hlength ▸ hne)
  exact ⟨by rw [hlength, hplaced.data_eq, hwhole.length_eq], hplaced.data_eq ▸ hwhole.header⟩

theorem playHandler {ok : Bool} (hall : WholePackets disk data) (hs : Orderly data s)
    (h : playHandler disk fuel s client = some (ok, s')) : Orderly data s' :=
  playHandler_preserves (fun _ h => h.playTransmit) (fun _ _ _ hread h => h.ended hall hread)
    (fun _ _ _ _ hread h => h.fetch hall hread) (fun _ client speed _ h => h.stamp client speed)
    (fun _ h => h.place) h hs

theorem seek {pos code : ℤ} (hall : WholePackets disk data) (hs : Orderly data s)
    (h : s.seek disk pos fuel = some (code, s')) : Orderly data s' := by
  refine seek_preserves ?_ ?_ ?_ h hs
  · intro s s' fuel ok hcall hs
    exact hs.playHandler hall hcall
  · intro s mPos hs
    exact ⟨hs.sound.sought pos mPos, hs.active.setSeekPosition hall hs.sound.data_eq pos, hs.whole, hs.track_le⟩
  · intro s s' hrestart hs
    obtain ⟨⟨ok, t⟩, hcall, rfl⟩ := Option.map_eq_some_iff.mp hrestart
    have hrewound : Orderly data (s.rewound disk) :=
      ⟨hs.sound.rewound, hs.active.resetReader hall hs.sound.data_eq, fun hne => absurd rfl hne, hs.track_le⟩
    exact hrewound.playHandler hall hcall

end Orderly

/-- So it is in every state of a session. -/
theorem Reachable.orderly (hall : WholePackets disk data) (h : Reachable disk data speeds s) : Orderly data s := by
  induction h with
  | new h =>
    obtain ⟨⟨ok, t⟩, hcall, rfl⟩ := Option.map_eq_some_iff.mp h
    exact (Orderly.initial hall _ _).playHandler hall hcall
  | play hs h ih =>
    obtain ⟨⟨ok, t⟩, hcall, hresult⟩ := Option.map_eq_some_iff.mp h
    obtain ⟨-, hrest⟩ := Prod.mk.inj hresult
    obtain ⟨-, rfl⟩ := Prod.mk.inj hrest
    exact ih.playHandler hall hcall
  | seek hs h ih => exact ih.seek hall h
  | setSpeed hspeed hs ih => exact ⟨⟨ih.sound.data_eq, ih.sound.reader, ih.sound.end_eq, ih.sound.offset_lt⟩,
      ih.active, ih.whole, ih.track_le⟩

/-- What a call of `Play` sends: the packet in the buffer, if it is an RTP packet of a track with a transport. -/
theorem Orderly.playTransmit_eq (h : Orderly data s) : s.playTransmit.1.toList.map (fun sent => unstamped sent.1 sent.2) =
    if s.buffer.length ≠ 0 ∧ s.buffer.plen ≠ 0 ∧ (s.mTrack = 0 ∨ s.audioTransport = true) then
      [unstamped s.mTrack s.buffer.data] else [] := by
  have htrack := h.track_le
  rw [RTPdumpFileSource.playTransmit, if_neg (by omega)]
  by_cases hrtp : s.buffer.length ≠ 0 ∧ s.buffer.plen ≠ 0
  · have hbytes : s.buffer.data.take s.buffer.length = s.buffer.data :=
      List.take_of_length_le (h.whole hrtp.1).length_eq.ge
    rw [if_pos hrtp]
    by_cases hsends : s.mTrack = 0 ∨ s.audioTransport = true
    · rw [if_pos hsends, if_pos ⟨hrtp.1, hrtp.2, hsends⟩, hbytes]
      rfl
    · rw [if_neg hsends, if_neg fun hall => hsends hall.2.2]
      rfl
  · have hnone : ¬(s.buffer.length ≠ 0 ∧ s.buffer.plen ≠ 0 ∧ (s.mTrack = 0 ∨ s.audioTransport = true)) :=
      fun hall => hrtp ⟨hall.1, hall.2.1⟩
    rw [if_neg hrtp, if_neg hnone]
    split <;> rfl

/-- Placing does not take the packet out of the buffer. -/
theorem Sound.place_length (h : Sound data s) : s.place.2.buffer.length = s.buffer.length := by
  have hwithin : ¬s.mEnd < s.buffer.offset := by
    have hlt := h.offset_lt
    rw [h.end_eq, uint32Max]
    omega
  rw [RTPdumpFileSource.place, if_neg hwithin]

/-- The packet which was read is then in the buffer, and what the reader has left comes behind it. -/
theorem Orderly.toSend_placed {n speed : ℕ} {b : RDBuffer} {r : RTPdumpFileReader P} (h : Orderly data s)
    (hall : WholePackets disk data)
    (hread : RTPdumpFileReader.readNextPacket disk s.mReader s.buffer = some (n + 1, b, r)) :
    (placed disk s .play b r speed).2.toSend disk = sendable s.audioTransport (s.mReader.unread disk) := by
  obtain ⟨-, -, haudio, hbuffer⟩ := noteRtp_keeps (s.hold disk b r)
  replace hbuffer : (s.hold disk b r).noteRtp.buffer = b := hbuffer
  have hheld := h.fetch hall hread
  have hstamped := hheld.stamp .play speed
  have hnote := sameCourse_noteRtp (s.hold disk b r)
  have hcourse := sameCourse_stamp (s.hold disk b r).noteRtp .play speed
  obtain ⟨htrack, -, -, hdata, hlength, hplen⟩ := stamp_spec (s.hold disk b r).noteRtp .play speed
  obtain ⟨-, hsends⟩ := stamp_keeps (s.hold disk b r).noteRtp .play speed
  obtain ⟨hcount, hcons⟩ := unread_eq_cons h.sound.reader hread
  have hwhole : b.Whole := h.active.unread hall h.sound.data_eq (hcons ▸ List.mem_cons_self)
  rw [hbuffer] at htrack hdata hlength hplen
  rw [placed]
  generalize (s.hold disk b r).noteRtp.stamp .play speed = t at *
  have hplaced := placedLike_place t
  have hlen : t.place.2.buffer.length = b.length := hstamped.sound.place_length.trans hlength
  have hne : b.length ≠ 0 := hcount ▸ Nat.succ_ne_zero n
  have hreader : t.place.2.mReader = r := by
    rw [hplaced.mReader_eq, hcourse.mReader_eq, hnote.mReader_eq]
    rfl
  have hsame : t.place.2.audioTransport = s.audioTransport := by
    rw [hplaced.audioTransport_eq, hsends, haudio]
    rfl
  rw [toSend, hstamped.place.playTransmit_eq, hlen, hplaced.plen_eq, hplen, hplaced.mTrack_eq, htrack, hsame,
    hplaced.data_eq, hdata, unstamped_stampPacket _ _ _ _ hwhole.header, hreader, hcons, sendable_cons]
  simp only [ne_eq, hne, not_false_eq_true, true_and]
  rfl

/-- A call of `Play` sends the first of what is to be sent; the call which finds the end leaves nothing to be sent. -/
theorem Orderly.play {ok : Bool} {packet : Option (ℕ × List UInt8)} (h : Orderly data s) (hall : WholePackets disk data)
    (hplay : s.play disk = some (ok, packet, s')) :
    packet.toList.map (fun sent => unstamped sent.1 sent.2) ++ s'.toSend disk = s.toSend disk ∧
      (ok = false → s'.toSend disk = []) := by
  obtain ⟨⟨ok', t⟩, hcall, hresult⟩ := Option.map_eq_some_iff.mp hplay
  obtain ⟨rfl, hrest⟩ := Prod.mk.inj hresult
  obtain ⟨-, -, -, hend⟩ := playHandler_sound h.sound hcall
  obtain ⟨rfl, hcases⟩ := play_cases h.sound hplay
  obtain ⟨hreader, -⟩ := playTransmit_same s
  obtain ⟨hempty, -⟩ := playTransmit_empties h.track_le
  have haudio := (playTransmit_keeps s).2.2
  have hsent := h.playTransmit
  rw [← hreader] at hcases hend
  have htoSend : s.toSend disk = s.playTransmit.1.toList.map (fun sent => unstamped sent.1 sent.2) ++
      sendable s.playTransmit.2.audioTransport (s.playTransmit.2.mReader.unread disk) := by
    rw [toSend, haudio, hreader]
  rw [htoSend]
  generalize s.playTransmit.2 = u at *
  rcases hcases with ⟨b, r, hread, rfl⟩ | ⟨n, b, r, speed, hread, -, rfl⟩
  · obtain ⟨hnil, hnil'⟩ := (RTPdumpFileReader.unread_of_readNextPacket hsent.sound.reader hread).1 rfl
    have hended := hsent.ended hall hread
    have hlength : b.length = 0 := by
      cases readNextPacket_ended hread with
      | inl hsame => exact hsame ▸ hempty
      | inr hzero => exact hzero
    have hnothing : ({ u with mReader := r, buffer := b } : RTPdumpFileSource P).toSend disk = [] := by
      rw [toSend, hended.playTransmit_eq, if_neg fun hsends => hsends.1 hlength]
      exact congrArg (sendable _) hnil'
    rw [hnothing, hnil]
    exact ⟨rfl, fun _ => rfl⟩
  · rw [hsent.toSend_placed hall hread]
    refine ⟨rfl, fun hok => ?_⟩
    have hcons := (unread_eq_cons hsent.sound.reader hread).2
    rw [(hend hok).2] at hcons
    cases hcons

theorem Orderly.setSpeed (h : Orderly data s) (speed : Option ℚ) : Orderly data (s.setSpeed speed) :=
  ⟨⟨h.sound.data_eq, h.sound.reader, h.sound.end_eq, h.sound.offset_lt⟩, h.active, h.whole, h.track_le⟩

/-- Setting the speed changes nothing of what is to be sent. -/
theorem Orderly.toSend_setSpeed (h : Orderly data s) (speed : Option ℚ) :
    (s.setSpeed speed).toSend disk = s.toSend disk := by
  rw [toSend, toSend, (h.setSpeed speed).playTransmit_eq, h.playTransmit_eq]
  rfl

/-- The states after calls of `Play` are in order, and what was sent and what is to be sent make up what was to be sent. -/
theorem Plays.toSend {n : ℕ} {sent : List (ℕ × List UInt8)} (hall : WholePackets disk data) (h : Orderly data s)
    (hplays : Plays disk speeds s n sent t) :
    Orderly data t ∧ sent.map (fun sent => unstamped sent.1 sent.2) ++ t.toSend disk = s.toSend disk := by
  induction hplays with
  | start => exact ⟨h, rfl⟩
  | play hplays hplay ih =>
    obtain ⟨horderly, hsent⟩ := ih
    refine ⟨?_, ?_⟩
    · obtain ⟨⟨ok, u⟩, hcall, hresult⟩ := Option.map_eq_some_iff.mp hplay
      obtain ⟨-, hrest⟩ := Prod.mk.inj hresult
      obtain ⟨-, rfl⟩ := Prod.mk.inj hrest
      exact horderly.playHandler hall hcall
    · rw [List.map_append, List.append_assoc, (horderly.play hall hplay).1, hsent]
  | setSpeed _ hplays ih =>
    obtain ⟨horderly, hsent⟩ := ih
    exact ⟨horderly.setSpeed _, by rw [horderly.toSend_setSpeed, hsent]⟩

theorem speedDivisor_congr (h : t.mSpeed = s.mSpeed) : t.speedDivisor = s.speedDivisor := by
  rw [speedDivisor, speedDivisor, h]

/-- With a file open and a speed that divides, a call of `Play` returns: it fetches a packet while one is left. -/
theorem Orderly.play_returns (h : Orderly data s) (hreading : s.mReader.Reading) (hspeed : s.speedDivisor ≠ none) :
    ∃ packet s', s.play disk = some ((s.mReader.unread disk != []), packet, s') ∧
      (s.mReader.unread disk ≠ [] → s'.mReader.Reading ∧ s'.speedDivisor ≠ none ∧
        s'.mReader.unread disk = (s.mReader.unread disk).tail) := by
  have hend : s.playTransmit.2.mEnd ≠ 0 := by
    rw [h.sound.playTransmit.end_eq]
    decide
  have hnone {again : RTPdumpFileSource P → Option (RTPdumpFileSource P)} {missing : Bool}
      {u : RTPdumpFileSource P} : prefetch again .play missing u = some u := by
    apply if_neg
    rintro ⟨hinit, -⟩
    cases hinit
  have hkeeps := (playTransmit_keeps s).2.1
  rw [RTPdumpFileSource.play, handlerFuel, RTPdumpFileSource.playHandler, if_pos rfl, (playTransmit_same s).1]
  simp only [if_neg hend, hnone, Option.bind_some, Option.map_some]
  obtain ⟨hends, hdelivers⟩ := RTPdumpFileReader.readNextPacket_spec disk s.playTransmit.2.buffer hreading
  cases hunread : s.mReader.unread disk with
  | nil =>
    obtain ⟨b, r, hread, -⟩ := hends hunread
    rw [hread]
    exact ⟨_, _, rfl, fun hne => absurd rfl hne⟩
  | cons p rest =>
    obtain ⟨r, hread, hlength, hreading', hrest, -⟩ := hdelivers p rest hunread
    obtain ⟨n, hn⟩ := Nat.exists_eq_succ_of_ne_zero hlength
    rw [hn] at hread
    have hdivisor : (s.playTransmit.2.hold disk p r).noteRtp.speedDivisor = s.speedDivisor :=
      speedDivisor_congr ((noteRtp_keeps _).2.1.trans hkeeps)
    obtain ⟨speed, hdivides⟩ := Option.ne_none_iff_exists'.mp hspeed
    have hreader : s.playTransmit.2.mReader = s.mReader := (playTransmit_same s).1
    rw [← hreader] at hread
    obtain ⟨hok, -, hr, -, hsame, -⟩ := placed_spec .play speed (h.playTransmit.sound.hold hread)
    rw [placed] at hok hr hsame
    rw [hreader] at hread
    rw [hread]
    simp only [hdivisor, hdivides, Option.bind_some, Option.map_some]
    refine ⟨_, _, congrArg (fun ok => some (ok, _, _)) hok, fun _ => ⟨?_, ?_, ?_⟩⟩
    · rw [hr]
      exact hreading'
    · rw [speedDivisor_congr (hsame.trans hkeeps)]
      exact hspeed
    · rw [hr]
      exact hrest

end RTPdumpFileSource

/-- Two RTP packets with a report between them. -/
def withReport : List RDBuffer :=
  [recordOf 12 [0, 5] [0, 0, 0, 1], recordOf 0 [0, 1] [0, 0, 0, 2], recordOf 12 [0, 6] [0, 0, 0, 3]]

theorem wholePackets_withReport : WholePackets (diskWith withReport) oneChunk := by
  intro chunk hchunk bytes hbytes
  obtain rfl := List.mem_singleton.mp hchunk
  obtain rfl := Option.some.inj hbytes
  decide +kernel

end RecordingAgent.RtspPlay
