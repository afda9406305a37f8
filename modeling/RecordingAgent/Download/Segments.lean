import Mathlib.Data.BitVec
import Mathlib.Data.List.Basic
import RecordingAgent.Foundation.CString

/-!
# The segments of a download

A download lists the chunks it found in segments, which a gap between two chunks ends. A chunk whose
file cannot be found is left out. The times of a segment are those of its chunks less the time offsets
in their headers; they are printed by a function of another library, and kept here as numbers of 64 bits.
-/

namespace RecordingAgent.Download

open Foundation

/-- The outcome of a download, or of a step of it. -/
inductive DownloadStatus
  | okFull
  | failure
  | internalErr
  | sizeErr
  | rangeErr
  deriving DecidableEq

/-- A chunk that was found: what the search says of it, the path `make_filepath` makes for it, and what
its file holds. The header of a file can be read. -/
structure Chunk where
  epochTime : ℤ
  duration : ℤ
  gap : Bool
  path : Option CString
  timeSrc : CString
  timeoffset : ℤ
  signature : CString
  size : ℕ
  deriving DecidableEq

/-- What is written to the metadata, piece by piece. -/
inductive MetaItem
  | segmentStart
  | chunk (name signature : CString)
  | segmentEnd (startTime endTime : BitVec 64)
  deriving DecidableEq

/-- What the system contributes: the current time offset, the result of a conversion from floating
point which the language leaves undefined, whether chunks of these sizes fit the destination, and
whether a file is copied. -/
structure DownloadSystem where
  timeoffset : ℤ
  undefinedCast : ℤ → BitVec 64
  fits : List ℕ → Bool
  copyFile : CString → Bool

/-- The integer nearest to a number among those with at most 53 significant bits, `(double) z`. -/
def toDouble (z : ℤ) : ℤ :=
  let unit := 2 ^ (z.natAbs.log2 + 1 - 53)
  let low := z.natAbs % unit
  let high := z.natAbs / unit
  z.sign * ((if unit < 2 * low ∨ unit = 2 * low ∧ high % 2 = 1 then high + 1 else high) * unit : ℕ)

/-- A floating-point number which is an integer, assigned to an unsigned one. -/
def DownloadSystem.toUint64 (sys : DownloadSystem) (x : ℤ) : BitVec 64 :=
  if 0 ≤ x ∧ x < 2 ^ 64 then BitVec.ofInt 64 x else sys.undefinedCast x

/-- What follows the last slash of a path. -/
def lastName (path : CString) : CString := path.rtakeWhile (· != '/')

variable (sys : DownloadSystem)

/-- The time offset of a chunk: that of its header, if the header names a time source. -/
def Chunk.offset (c : Chunk) : ℤ := if c.timeSrc ≠ [] then c.timeoffset else sys.timeoffset

/-- `get_timeoffset_from_chunk_header`, which for the first chunk of a download goes through the
floating-point variable `starttimeoffset`. -/
def timeoffsetFromChunkHeader (c : Chunk) (isfirstchunk : Bool) : BitVec 64 :=
  if isfirstchunk then sys.toUint64 (toDouble (c.offset sys)) else BitVec.ofInt 64 (c.offset sys)

/-- The variables of the loop: how many chunks are listed, `s`, and `segment.start_time`. -/
structure SegState where
  cc : ℕ := 0
  s : BitVec 64
  startTime : BitVec 64 := 0
  deriving DecidableEq

/-- The start of the first segment, before the first chunk is listed. -/
def SegState.openFirst (st : SegState) (c : Chunk) : SegState × List MetaItem :=
  if st.cc = 0 then
    ({ st with
       s := st.s - timeoffsetFromChunkHeader sys c true
       startTime := st.s - timeoffsetFromChunkHeader sys c true }, [.segmentStart])
  else (st, [])

/-- The entry of a chunk. -/
def Chunk.entry (c : Chunk) (path : CString) : MetaItem := .chunk (lastName path) c.signature

/-- The end of a segment behind a chunk with a gap or behind the last, and the start of the next. -/
def SegState.closeSegment (st : SegState) (c : Chunk) (rest : List Chunk) : SegState × List MetaItem :=
  if c.gap = true ∨ rest = [] then
    let s := BitVec.ofInt 64 c.epochTime - timeoffsetFromChunkHeader sys c false +
      BitVec.ofInt 64 (c.duration.tdiv 1000000)
    match rest with
    | [] => ({ st with s }, [.segmentEnd st.startTime s])
    | next :: _ =>
      let s' := BitVec.ofInt 64 next.epochTime - timeoffsetFromChunkHeader sys c false
      ({ st with s := s', startTime := s' }, [.segmentEnd st.startTime s, .segmentStart])
  else (st, [])

/-- The loop over the chunks, with what it writes. -/
def insertChunks (st : SegState) : List Chunk → DownloadStatus × List MetaItem
  | [] => (if st.cc = 0 then .failure else .okFull, [])
  | c :: rest =>
    match c.path with
    | none => insertChunks st rest
    | some path =>
      let opened := st.openFirst sys c
      let closed := { opened.1 with cc := st.cc + 1 }.closeSegment sys c rest
      let items := opened.2 ++ c.entry path :: closed.2
      if sys.copyFile path then
        ((insertChunks closed.1 rest).1, items ++ (insertChunks closed.1 rest).2)
      else (.internalErr, items)

/-- List the chunks of a download and copy their files. -/
def insertChunkMetadata (chunks : List Chunk) : DownloadStatus × List MetaItem :=
  match chunks with
  | [] => (.internalErr, [])
  | first :: _ =>
    if sys.fits ((chunks.filter (·.path.isSome)).map (·.size)) then
      insertChunks sys { s := BitVec.ofInt 64 first.epochTime } chunks
    else (.sizeErr, [])

end RecordingAgent.Download
