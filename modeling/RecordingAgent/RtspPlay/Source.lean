import Mathlib.Data.Rat.Floor
import RecordingAgent.RtspPlay.Delivery

/-!
# The playback source

The source holds the packet which is sent next. Its handler sends that packet, fetches another from
the reader, counts the offset of the packet from that of the first one, and gives its RTP header a
sequence number and a timestamp of its own. A seek moves the reader to the chunk of the position and
fetches packets until their offsets reach it; a seek backwards starts again from the first chunk.

The clock which paces playback is left out: whether the next packet is due is part of the request.
A call which reads a closed file, divides by zero or converts a speed out of range has no result.
-/

namespace RecordingAgent.RtspPlay

open Foundation

/-- On whose behalf the handler runs. -/
inductive Client
  | init
  | seek
  | play
  deriving DecidableEq

/-- The members which are kept for each track: `m_wclockOffset`, `m_wclockRef`, `m_seqOffset` and
`m_rtp`. -/
structure TrackState where
  wclockOffset : ℕ
  wclockRef : ℕ
  seqOffset : ℕ
  rtpTs : ℕ
  rtpSeq : ℕ
  deriving DecidableEq

/-- The members of the source. The pointers to RTP headers all point to the data of the buffer, so only
whether they are set is kept. The member `held` is not in the source: it tells which packet is in the
buffer, by the number of packets behind it. -/
structure RTPdumpFileSource (P : Type) where
  mReader : RTPdumpFileReader P
  mTrack : ℕ
  mPos : ℤ
  mSpeed : Option ℚ
  mEnd : ℕ
  mFirst : ℤ
  video : TrackState
  audio : TrackState
  buffer : RDBuffer
  r : Bool
  aR : Bool
  vR : Bool
  audioTransport : Bool
  held : Option ℕ

/-- `UINT32_MAX` -/
def uint32Max : ℕ := 2 ^ 32 - 1

/-- `ntohl` and `htonl`, which exchange the bytes. -/
def ntohl (x : ℕ) : ℕ := beValue (leBytes 4 x)

/-- `htons` -/
def htons (x : ℕ) : ℕ := beValue (leBytes 2 x)

/-- The timestamp and the sequence number given to the packet of a track, and the body with them. -/
def stampPacket (client : Client) (speed : ℕ) (t : TrackState) (data : List UInt8) :
    TrackState × List UInt8 :=
  let seq := leValue ((data.drop 2).take 2)
  let ts := leValue ((data.drop 4).take 4)
  let ref := if t.wclockRef = 0 then ts else t.wclockRef
  let wclockOffset :=
    if t.wclockOffset = 0 then ts
    else if client = .play then (t.wclockOffset + (ntohl ts + 2 ^ 32 - ntohl ref)) % 2 ^ 32
    else t.wclockOffset
  let seqOffset :=
    if t.seqOffset = 0 then seq
    else if client = .play then (t.seqOffset + 1) % 2 ^ 32
    else t.seqOffset
  ({ wclockOffset := wclockOffset
     wclockRef := ts
     seqOffset := seqOffset
     rtpTs := ntohl wclockOffset
     rtpSeq := htons seqOffset },
    writeAt (writeAt data 4 (leBytes 4 (ntohl (wclockOffset / speed)))) 2 (leBytes 2 (htons seqOffset)))

/-- `setSeekPosition` returns an `int`. -/
def toInt (x : ℤ) : ℤ := Int.bmod x (2 ^ 32)

namespace RTPdumpFileReader

variable {P : Type} (disk : P → Option (List UInt8))

/-- `resetReader` -/
def resetReader (r : RTPdumpFileReader P) : RTPdumpFileReader P :=
  let opened := openChunk disk { r with mIndex := 0 }
  if opened.1 then opened.2.readHeader else opened.2

/-- The position is between those of this chunk and the next one. -/
def inChunk (r : RTPdumpFileReader P) (position : ℤ) (i : ℕ) : Bool :=
  match r.mVideoData.chunckList[i]?, r.mVideoData.chunckList[i + 1]? with
  | some chunk, some next => chunk.position ≤ position && position ≤ next.position
  | _, _ => false

/-- The first chunk for which that is so. -/
def findChunk (r : RTPdumpFileReader P) (position : ℤ) : Option ℕ :=
  (List.range (r.mVideoData.totalChunk - 1)).find? (r.inChunk position)

/-- `setSeekPosition` -/
def setSeekPosition (r : RTPdumpFileReader P) (position : ℤ) : ℤ × RTPdumpFileReader P :=
  if r.inChunk position r.mIndex then (0, r)
  else
    match r.findChunk position with
    | none => (-1, r)
    | some i =>
      let opened := openChunk disk { r with mIndex := i }
      if opened.1 then
        (toInt ((r.mVideoData.chunckList[i]?.map ChunkT.position).getD 0), opened.2.readHeader)
      else (-1, opened.2)

end RTPdumpFileReader

namespace RTPdumpFileSource

variable {P : Type}

/-- The speed as an integer, if the conversions of it are in range and it may divide. -/
def speedDivisor (s : RTPdumpFileSource P) : Option ℕ :=
  match s.mSpeed with
  | none => none
  | some speed => if 1 ≤ speed ∧ speed < 2 ^ 31 then some ⌊speed⌋.toNat else none

/-- `play_transmit`: the track and the packet which is sent on it, if one is. -/
def playTransmit (s : RTPdumpFileSource P) : Option (ℕ × List UInt8) × RTPdumpFileSource P :=
  if 1 < s.mTrack then (none, s)
  else if s.buffer.length ≠ 0 ∧ s.buffer.plen ≠ 0 then
    (if s.mTrack = 0 ∨ s.audioTransport then some (s.mTrack, s.buffer.data.take s.buffer.length) else none,
      { s with buffer := { s.buffer with length := 0 }, held := none })
  else if s.buffer.plen = 0 then (none, { s with buffer := { s.buffer with length := 0 }, held := none })
  else (none, s)

/-- The track of the packet in the buffer, told by a bit of its offset, and the stamp of the track. -/
def stamp (s : RTPdumpFileSource P) (client : Client) (speed : ℕ) : RTPdumpFileSource P :=
  if s.buffer.offset.testBit 31 then
    let stamped := stampPacket client speed s.audio s.buffer.data
    { s with
      buffer := { s.buffer with offset := s.buffer.offset % 2 ^ 31, data := stamped.2 }
      audio := stamped.1
      mTrack := 1
      aR := true }
  else
    let stamped := stampPacket client speed s.video s.buffer.data
    { s with
      buffer := { s.buffer with data := stamped.2 }
      video := stamped.1
      mTrack := 0
      vR := true }

/-- The end of the handler: the offset of the packet is counted from the first one. -/
def place (s : RTPdumpFileSource P) : Bool × RTPdumpFileSource P :=
  if s.mEnd < s.buffer.offset then
    (false, { s with buffer := { s.buffer with length := 0 }, mEnd := 0 })
  else
    let first := if s.mFirst < 0 then (s.buffer.offset : ℤ) else s.mFirst
    let offset : ℕ := (((s.buffer.offset : ℤ) - first) % 2 ^ 32).toNat
    (true,
      { s with
        mFirst := first
        buffer := { s.buffer with offset := offset }
        mPos := offset })

variable (disk : P → Option (List UInt8))

/-- The packet which the reader returned, in the buffer. -/
def hold (s : RTPdumpFileSource P) (b : RDBuffer) (r : RTPdumpFileReader P) : RTPdumpFileSource P :=
  { s with
    mReader := r
    buffer := b
    held := some (r.unread disk).length }

/-- The pointer to the header of an RTP packet is set. -/
def noteRtp (s : RTPdumpFileSource P) : RTPdumpFileSource P :=
  if s.buffer.plen ≠ 0 then { s with r := true } else s

/-- The handler calls itself to prefetch another packet if the first ones do not suffice. -/
def prefetch (again : RTPdumpFileSource P → Option (RTPdumpFileSource P)) (client : Client) (missing : Bool)
    (s : RTPdumpFileSource P) : Option (RTPdumpFileSource P) :=
  if client = .init ∧ missing then again s else some s

/-- `play_handler`, with a bound on how often it may call itself. -/
def playHandler : ℕ → RTPdumpFileSource P → Client → Option (Bool × RTPdumpFileSource P)
  | 0, _, _ => none
  | fuel + 1, s, client =>
    let s := if client = .play then s.playTransmit.2 else s
    let again (s : RTPdumpFileSource P) := (playHandler fuel s .init).map Prod.snd
    if s.mEnd = 0 then some (false, s)
    else
      match RTPdumpFileReader.readNextPacket disk s.mReader s.buffer with
      | none => none
      | some (0, b, r) => some (false, { s with mReader := r, buffer := b })
      | some (_ + 1, b, r) =>
        let s := (s.hold disk b r).noteRtp
        (prefetch again client (!s.r) s).bind fun s =>
        s.speedDivisor.bind fun speed =>
        let s := s.stamp client speed
        (prefetch again client (s.mReader.videoPresent && !s.vR) s).bind fun s =>
        (prefetch again client (s.mReader.audioPresent && !s.aR) s).map place

/-- Enough calls of the handler by itself: each has read another packet. -/
def handlerFuel (s : RTPdumpFileSource P) : ℕ := (s.mReader.unread disk).length + 1

/-- The constructor, with what stands in the position before it is set. -/
def new (data : VideoChunkT P) (audioTransport : Bool) (uninitialised : ℤ) : Option (RTPdumpFileSource P) :=
  let s : RTPdumpFileSource P :=
    { mReader := RTPdumpFileReader.new disk data
      mTrack := 0
      mPos := uninitialised
      mSpeed := some 1
      mEnd := uint32Max
      mFirst := -1
      video := ⟨0, 0, 0, 0, 0⟩
      audio := ⟨0, 0, 0, 0, 0⟩
      buffer := .zero
      r := false
      aR := false
      vR := false
      audioTransport := audioTransport
      held := none }
  (playHandler disk (s.handlerFuel disk) s .init).map Prod.snd

/-- The source set back to the beginning of the recording. -/
def rewound (s : RTPdumpFileSource P) : RTPdumpFileSource P :=
  { s with
    mReader := s.mReader.resetReader disk
    mPos := 0
    mEnd := uint32Max
    mFirst := -1
    video := { s.video with wclockRef := 0, rtpTs := 0, rtpSeq := 0 }
    audio := { s.audio with wclockRef := 0, rtpTs := 0, rtpSeq := 0 }
    buffer := .zero
    r := false
    held := none }

/-- What a seek backwards does before it seeks again. -/
def restart (s : RTPdumpFileSource P) : Option (RTPdumpFileSource P) :=
  (playHandler disk ((s.rewound disk).handlerFuel disk) (s.rewound disk) .init).map Prod.snd

/-- The loop of a seek, with a bound on its rounds. -/
def scan (pos : ℤ) : ℕ → RTPdumpFileSource P → Option (RTPdumpFileSource P)
  | 0, _ => none
  | fuel + 1, s =>
    if s.mPos < pos then (playHandler disk (s.handlerFuel disk) s .seek).bind fun next => scan pos fuel next.2
    else some s

/-- `Seek`, with a bound on how often it may call itself. -/
def seek (pos : ℤ) : ℕ → RTPdumpFileSource P → Option (ℤ × RTPdumpFileSource P)
  | 0, _ => none
  | fuel + 1, s =>
    if pos = 0 then some (exitSuccess, s)
    else if s.mPos < pos then
      let sought := RTPdumpFileReader.setSeekPosition disk s.mReader pos
      let s := { s with mReader := sought.2 }
      if sought.1 = -1 then some (exitFailure, s)
      else
        let s := if sought.1 ≠ 0 then { s with mPos := sought.1 } else s
        (scan disk pos (s.handlerFuel disk + 1) s).map fun s => (exitSuccess, s)
    else if pos < s.mPos then
      (restart disk s).bind fun s => (seek pos fuel s).map fun result => (exitSuccess, result.2)
    else some (exitSuccess, s)

/-- `Play`, when the next packet is due: whether the recording has not ended, and what is sent. -/
def play (s : RTPdumpFileSource P) : Option (Bool × Option (ℕ × List UInt8) × RTPdumpFileSource P) :=
  (playHandler disk (s.handlerFuel disk) s .play).map fun result => (result.1, s.playTransmit.1, result.2)

/-- `SetSpeed` -/
def setSpeed (s : RTPdumpFileSource P) (speed : Option ℚ) : RTPdumpFileSource P := { s with mSpeed := speed }

end RTPdumpFileSource

end RecordingAgent.RtspPlay
