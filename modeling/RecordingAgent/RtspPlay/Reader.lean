import RecordingAgent.Foundation.ReadStream
import RecordingAgent.Foundation.CString

/-!
# The reader of recorded chunks

Playback reads the chunks of a session directory one after the other: the prefix and the header of a
chunk, then its packets, until a read of a packet returns zero. Reading a stream which is not open
is undefined in C; the reader then has no result.
-/

namespace RecordingAgent.RtspPlay

open Foundation

/-- `RD_buffer_t`: the header of a packet in host byte order, and the bytes read behind it. A body
which the end of the file cuts off leaves what the buffer held before behind it; that is left out. -/
structure RDBuffer where
  length : ℕ
  plen : ℕ
  offset : ℕ
  data : List UInt8
  deriving DecidableEq

/-- The buffer before anything was read. -/
def RDBuffer.zero : RDBuffer where
  length := 0
  plen := 0
  offset := 0
  data := []

/-- `chunk_t`. -/
structure ChunkT (P : Type*) where
  path : P
  duration : ℤ
  position : ℤ

/-- `MAX_FILE_COUNT` -/
def maxFileCount : ℕ := 6000

/-- `video_chunk_t`. -/
structure VideoChunkT (P : Type*) where
  chunckList : List (ChunkT P)
  total_le : chunckList.length ≤ maxFileCount

/-- `total_chunk` -/
def VideoChunkT.totalChunk {P : Type*} (data : VideoChunkT P) : ℕ := data.chunckList.length

/-- The members of the reader. The text of the session description which is collected from the headers is
left out. -/
structure RTPdumpFileReader (P : Type*) where
  mActiveFile : Option ReadStream
  mVideoData : VideoChunkT P
  mIndex : ℕ
  audioPresent : Bool
  videoPresent : Bool

/-- `sizeof(RD_packet_t)` -/
def rdPacketSize : ℕ := 8

/-- `sizeof(vradump_file_pfx_t)` -/
def filePfxSize : ℕ := 2304

/-- `sizeof(vradump_chunk_hdr_t)` -/
def chunkHdrSize : ℕ := 16

/-- Where the streams stand in the chunk header. -/
def streamsOffset : ℕ := 14

/-- The begin of the first line, `#!vraplay2.0 `. -/
def vramagic : List UInt8 := [35, 33, 118, 114, 97, 112, 108, 97, 121, 50, 46, 48, 32]

/-- The string in a line which was read, with a blank for the newline at its end. -/
def lineText (line : List UInt8) : List UInt8 :=
  let text := line.takeWhile (· != 0)
  if text.getLast? = some 10 then text.dropLast ++ [32] else text

/-- What `VRA_header` returns and leaves: `EXIT_FAILURE` or `EXIT_SUCCESS`, the stream, and the streams
of the chunk if they were read. -/
structure HeaderResult where
  code : ℤ
  stream : ReadStream
  streams : Option UInt8

/-- `EXIT_FAILURE` -/
def exitFailure : ℤ := 1

/-- `EXIT_SUCCESS` -/
def exitSuccess : ℤ := 0

/-- `VRA_header` -/
def vraHeader (f : ReadStream) : HeaderResult :=
  let (line, f1) := f.fgets 80
  if line = [] then ⟨exitFailure, f1, none⟩
  else if ¬ vramagic <+: lineText line then ⟨exitFailure, f1, none⟩
  else
    let (pfx, f2) := f1.rewind.fread filePfxSize
    if pfx.length ≠ filePfxSize then ⟨exitFailure, f2, none⟩
    else
      let (hdr, f3) := f2.fread chunkHdrSize
      if hdr.length ≠ chunkHdrSize then ⟨exitFailure, f3, none⟩
      else ⟨exitSuccess, f3, hdr[streamsOffset]?⟩

/-- `RD_read`: what it returns, the buffer and the stream. A header which the end of the file cuts off
is not seen by any caller, so the buffer is left as it was. -/
def rdRead (f : ReadStream) (b : RDBuffer) : ℕ × RDBuffer × ReadStream :=
  let (hdr, f1) := f.fread rdPacketSize
  if hdr.length ≠ rdPacketSize then (0, b, f1)
  else
    -- the length is of 16 bits, so one below the size of the header wraps
    let length := (beValue (hdr.take 2) + 2 ^ 16 - rdPacketSize) % 2 ^ 16
    let (data, f2) := f1.fread length
    (length,
      { length := length
        plen := beValue ((hdr.drop 2).take 2)
        offset := beValue (hdr.drop 4)
        data := data }, f2)

namespace RTPdumpFileReader

variable {P : Type*} (disk : P → Option (List UInt8))

/-- `openChunk`, and whether it succeeds. -/
def openChunk (r : RTPdumpFileReader P) : Bool × RTPdumpFileReader P :=
  match r.mVideoData.chunckList[r.mIndex]? with
  | none => (false, r)
  | some chunk =>
    match disk chunk.path with
    | none => (false, { r with mActiveFile := none })
    | some bytes => (true, { r with mActiveFile := some (ReadStream.fopen bytes) })

/-- `VRA_header` on the active file. Its callers ask for a negative code, which it never returns. -/
def readHeader (r : RTPdumpFileReader P) : RTPdumpFileReader P :=
  match r.mActiveFile with
  | none => r
  | some f =>
    { r with
      mActiveFile := some (vraHeader f).stream
      videoPresent := r.videoPresent || (vraHeader f).streams.any (· &&& 1 != 0)
      audioPresent := r.audioPresent || (vraHeader f).streams.any (· &&& 2 != 0) }

/-- What follows when the active file has ended: the file is closed and the next chunk opened, and its
header is read if that succeeded. -/
def nextChunk (r : RTPdumpFileReader P) : Bool × RTPdumpFileReader P :=
  let opened := openChunk disk { r with mIndex := r.mIndex + 1, mActiveFile := none }
  (opened.1, opened.2.readHeader)

@[simp] theorem openChunk_mIndex (r : RTPdumpFileReader P) : (openChunk disk r).2.mIndex = r.mIndex := by
  unfold openChunk
  grind

@[simp] theorem openChunk_mVideoData (r : RTPdumpFileReader P) :
    (openChunk disk r).2.mVideoData = r.mVideoData := by
  unfold openChunk
  grind

@[simp] theorem readHeader_mIndex (r : RTPdumpFileReader P) : r.readHeader.mIndex = r.mIndex := by
  unfold readHeader
  split <;> rfl

@[simp] theorem readHeader_mVideoData (r : RTPdumpFileReader P) : r.readHeader.mVideoData = r.mVideoData := by
  unfold readHeader
  split <;> rfl

@[simp] theorem nextChunk_mIndex (r : RTPdumpFileReader P) : (nextChunk disk r).2.mIndex = r.mIndex + 1 := by
  simp [nextChunk]

@[simp] theorem nextChunk_mVideoData (r : RTPdumpFileReader P) :
    (nextChunk disk r).2.mVideoData = r.mVideoData := by
  simp [nextChunk]

/-- `readNextPacket`: what it returns, the buffer and the reader. -/
def readNextPacket (r : RTPdumpFileReader P) (b : RDBuffer) : Option (ℕ × RDBuffer × RTPdumpFileReader P) :=
  match r.mActiveFile with
  | none => none
  | some f =>
    let (readBytes, b', f') := rdRead f b
    if readBytes ≠ 0 then some (readBytes, b', { r with mActiveFile := some f' })
    else if r.mIndex ≤ r.mVideoData.totalChunk then
      if (nextChunk disk r).1 then readNextPacket (nextChunk disk r).2 b'
      else some (0, b', (nextChunk disk r).2)
    else some (0, b', { r with mIndex := r.mIndex + 1, mActiveFile := some f' })
termination_by r.mVideoData.totalChunk + 1 - r.mIndex
decreasing_by
  simp
  omega

/-- The constructor after the chunks of the directory were sorted. -/
def new (data : VideoChunkT P) : RTPdumpFileReader P :=
  let opened := openChunk disk
    { mActiveFile := none
      mVideoData := data
      mIndex := 0
      audioPresent := false
      videoPresent := false }
  opened.2.readHeader

end RTPdumpFileReader

end RecordingAgent.RtspPlay
