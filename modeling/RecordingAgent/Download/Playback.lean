import RecordingAgent.Download.HeaderOffset
import RecordingAgent.Download.SegmentText

/-!
# The range of a playback

A playback links the chunks that were found and reports the range they span. The range is computed again at
every linked chunk, from the ends of the list that was found and from two offsets: that of the first linked
chunk, and that of the last chunk that was found, which is read only if this chunk is linked.
-/

namespace RecordingAgent.Download

open Foundation

/-- `data_range_t` -/
structure DataRange where
  startTime : BitVec 32
  endTime : BitVec 32
  deriving DecidableEq

/-- The longest path with its terminator, `PATH_MAX`. -/
def pathMax : ℕ := 4096

/-- The link which `mklink` makes for a file, if it makes one. -/
def mklink (file destination : CString) : Option CString :=
  if '/' ∈ file then
    let name := '/' :: lastName file
    if name.length > pathMax - 1 - destination.length then none else some (destination ++ name)
  else none

/-- The variables of the loop, the range behind `drange` if there is one, and the links with their files. -/
structure PlaybackVars where
  firstChunk : Bool := false
  firstChunkOffset : BitVec 64 := 0
  lastChunkOffset : BitVec 64 := 0
  starttimeoffset : ℤ
  drange : Option DataRange
  links : List (CString × CString) := []
  deriving DecidableEq

/-- A chunk of the array which the search left at zeros. -/
def emptyChunk : Chunk := ⟨0, 0, false, none, [], 0, [], 0⟩

/-- The range between the ends of the found chunks, moved by the two offsets. -/
def rangeOf (chunks : List Chunk) (foundChunkCount : ℕ) (firstChunkOffset lastChunkOffset : BitVec 64) : DataRange :=
  let first := chunks.headD emptyChunk
  let last := chunks[foundChunkCount - 1]?.getD emptyChunk
  { startTime := (BitVec.ofInt 64 first.epochTime - firstChunkOffset).setWidth 32
    endTime := (BitVec.ofInt 64 last.epochTime + BitVec.ofInt 64 (last.duration.tdiv 1000000 + 1) -
      lastChunkOffset).setWidth 32 }

variable (sys : DownloadSystem)

/-- The offset of the first chunk that is linked. -/
def PlaybackVars.readFirst (vars : PlaybackVars) (c : Chunk) : PlaybackVars :=
  if vars.firstChunk = false then
    let read := (getTimeoffsetFromChunkHeader sys (some c) true true ⟨vars.starttimeoffset, vars.firstChunkOffset⟩).2
    { vars with firstChunk := true, firstChunkOffset := read.offset, starttimeoffset := read.starttimeoffset }
  else vars

/-- The offset of the last chunk that was found. -/
def PlaybackVars.readLast (vars : PlaybackVars) (totalFoundChunks i : ℕ) (c : Chunk) : PlaybackVars :=
  if i = totalFoundChunks - 1 then
    let read := (getTimeoffsetFromChunkHeader sys (some c) false true ⟨vars.starttimeoffset, vars.lastChunkOffset⟩).2
    { vars with lastChunkOffset := read.offset, starttimeoffset := read.starttimeoffset }
  else vars

/-- A chunk whose file was found. -/
def PlaybackVars.linkChunk (vars : PlaybackVars) (chunks : List Chunk) (destination : CString) (foundChunkCount i : ℕ)
    (c : Chunk) (path : CString) : PlaybackVars :=
  let vars := (vars.readFirst sys c).readLast sys chunks.length i c
  { vars with
    drange := vars.drange.map fun _ => rangeOf chunks foundChunkCount vars.firstChunkOffset vars.lastChunkOffset
    links := vars.links ++ ((mklink path destination).map fun link => (link, path)).toList }

/-- The loop over the found chunks, from an index on. -/
def playbackLoop (chunks : List Chunk) (destination : CString) (foundChunkCount : ℕ) :
    ℕ → PlaybackVars → List Chunk → PlaybackVars
  | _, vars, [] => vars
  | i, vars, c :: rest =>
    match c.path with
    | none => playbackLoop chunks destination foundChunkCount (i + 1) vars rest
    | some path =>
      playbackLoop chunks destination foundChunkCount (i + 1)
        (vars.linkChunk sys chunks destination foundChunkCount i c path) rest

/-- Link the found chunks and report their range. -/
def preparePlayback (chunks : List Chunk) (destination : CString) (starttimeoffset : ℤ) (drange : Option DataRange)
    (foundChunkCount : ℕ) : Bool × PlaybackVars :=
  if chunks = [] then (false, { starttimeoffset, drange })
  else (true, playbackLoop sys chunks destination foundChunkCount 0 { starttimeoffset, drange } chunks)

/-! ## What the loop comes to -/

section Loop

variable {chunks rest : List Chunk} {destination path : CString} {count i : ℕ} {vars : PlaybackVars} {c : Chunk}

theorem playbackLoop_of_none (h : c.path = none) :
    playbackLoop sys chunks destination count i vars (c :: rest) =
      playbackLoop sys chunks destination count (i + 1) vars rest := by
  rw [playbackLoop, h]

theorem playbackLoop_of_some (h : c.path = some path) :
    playbackLoop sys chunks destination count i vars (c :: rest) =
      playbackLoop sys chunks destination count (i + 1)
        (vars.linkChunk sys chunks destination count i c path) rest := by
  rw [playbackLoop, h]

theorem linkChunk_firstChunk : (vars.linkChunk sys chunks destination count i c path).firstChunk = true := by
  have hread : (vars.readFirst sys c).firstChunk = true := by
    unfold PlaybackVars.readFirst
    split
    next => rfl
    next h => exact Bool.of_not_eq_false h
  unfold PlaybackVars.linkChunk PlaybackVars.readLast
  split_ifs
  · exact hread
  · exact hread

theorem linkChunk_firstChunkOffset :
    (vars.linkChunk sys chunks destination count i c path).firstChunkOffset =
      (vars.readFirst sys c).firstChunkOffset := by
  unfold PlaybackVars.linkChunk PlaybackVars.readLast
  split_ifs <;> rfl

theorem linkChunk_lastChunkOffset :
    (vars.linkChunk sys chunks destination count i c path).lastChunkOffset =
      if i = chunks.length - 1 then BitVec.ofInt 64 (c.offset sys) else vars.lastChunkOffset := by
  unfold PlaybackVars.linkChunk PlaybackVars.readLast
  split_ifs
  · exact (offset_getTimeoffsetFromChunkHeader sys c false true _).trans (if_neg fun h => absurd h.1 Bool.false_ne_true)
  · unfold PlaybackVars.readFirst
    split_ifs <;> rfl

theorem linkChunk_drange :
    (vars.linkChunk sys chunks destination count i c path).drange = vars.drange.map fun _ =>
      rangeOf chunks count (vars.linkChunk sys chunks destination count i c path).firstChunkOffset
        (vars.linkChunk sys chunks destination count i c path).lastChunkOffset := by
  unfold PlaybackVars.linkChunk PlaybackVars.readLast PlaybackVars.readFirst
  split_ifs <;> rfl

/-- Chunks that are not linked change nothing. -/
theorem playbackLoop_of_listed_nil (h : listed rest = []) :
    playbackLoop sys chunks destination count i vars rest = vars := by
  induction rest generalizing i with
  | nil => rfl
  | cons c rest ih =>
    cases hpath : c.path with
    | none =>
      rw [listed_cons_none hpath] at h
      rw [playbackLoop_of_none sys hpath]
      exact ih h
    | some path =>
      rw [listed_cons_some hpath] at h
      cases h

/-- The offset of the first chunk is read once. -/
theorem playbackLoop_firstChunkOffset_of_read (h : vars.firstChunk = true) :
    (playbackLoop sys chunks destination count i vars rest).firstChunkOffset = vars.firstChunkOffset := by
  induction rest generalizing i vars with
  | nil => rfl
  | cons c rest ih =>
    cases hpath : c.path with
    | none =>
      rw [playbackLoop_of_none sys hpath]
      exact ih h
    | some path =>
      rw [playbackLoop_of_some sys hpath, ih (linkChunk_firstChunk sys), linkChunk_firstChunkOffset,
        PlaybackVars.readFirst, if_neg (by rw [h]; decide)]

/-- The offset that is kept for the first chunk is what the header of the first linked one gives. -/
theorem playbackLoop_firstChunkOffset {first : Chunk} (hfirst : (listed rest).head? = some first)
    (h : vars.firstChunk = false) :
    (playbackLoop sys chunks destination count i vars rest).firstChunkOffset =
      if first.Floats true true then sys.toUint64 (toDouble (first.offset sys))
      else BitVec.ofInt 64 (first.offset sys) := by
  induction rest generalizing i with
  | nil => cases hfirst
  | cons c rest ih =>
    cases hpath : c.path with
    | none =>
      rw [listed_cons_none hpath] at hfirst
      rw [playbackLoop_of_none sys hpath]
      exact ih hfirst
    | some path =>
      rw [listed_cons_some hpath] at hfirst
      obtain rfl : c = first := Option.some.inj hfirst
      rw [playbackLoop_of_some sys hpath, playbackLoop_firstChunkOffset_of_read sys (linkChunk_firstChunk sys),
        linkChunk_firstChunkOffset, PlaybackVars.readFirst, if_pos h]
      exact offset_getTimeoffsetFromChunkHeader sys c true true _

/-- The offset that is kept for the last chunk is its own if it is linked, and else what it was. -/
theorem playbackLoop_lastChunkOffset {last : Chunk} (hlast : rest.getLast? = some last)
    (hend : i + rest.length = chunks.length) :
    (playbackLoop sys chunks destination count i vars rest).lastChunkOffset =
      if last.path.isSome then BitVec.ofInt 64 (last.offset sys) else vars.lastChunkOffset := by
  induction rest generalizing i vars with
  | nil => cases hlast
  | cons c rest ih =>
    rw [List.length_cons] at hend
    cases rest with
    | nil =>
      rw [List.getLast?_singleton] at hlast
      obtain rfl : c = last := Option.some.inj hlast
      have hi : i = chunks.length - 1 := by
        rw [List.length_nil] at hend
        omega
      cases hpath : c.path with
      | none => rw [playbackLoop_of_none sys hpath, playbackLoop, Option.isSome_none, if_neg Bool.false_ne_true]
      | some path =>
        rw [playbackLoop_of_some sys hpath, playbackLoop, linkChunk_lastChunkOffset, if_pos hi, Option.isSome_some,
          if_pos rfl]
    | cons next rest =>
      rw [List.getLast?_cons_cons] at hlast
      have hnext : i + 1 + (next :: rest).length = chunks.length := by omega
      have hi : i ≠ chunks.length - 1 := by
        rw [List.length_cons] at hnext
        omega
      cases hpath : c.path with
      | none =>
        rw [playbackLoop_of_none sys hpath]
        exact ih hlast hnext
      | some path =>
        rw [playbackLoop_of_some sys hpath, ih hlast hnext, linkChunk_lastChunkOffset, if_neg hi]

/-- The range is that of the offsets that are kept. -/
theorem playbackLoop_drange (h : listed rest ≠ []) :
    (playbackLoop sys chunks destination count i vars rest).drange = vars.drange.map fun _ =>
      rangeOf chunks count (playbackLoop sys chunks destination count i vars rest).firstChunkOffset
        (playbackLoop sys chunks destination count i vars rest).lastChunkOffset := by
  induction rest generalizing i vars with
  | nil => exact absurd rfl h
  | cons c rest ih =>
    cases hpath : c.path with
    | none =>
      rw [listed_cons_none hpath] at h
      rw [playbackLoop_of_none sys hpath]
      exact ih h
    | some path =>
      rw [playbackLoop_of_some sys hpath]
      by_cases hrest : listed rest = []
      · rw [playbackLoop_of_listed_nil sys hrest]
        exact linkChunk_drange sys
      · rw [ih hrest, linkChunk_drange, Option.map_map]
        rfl

end Loop

/-! ## When the range is right -/

/-- What the conversion of the current offset through floating point loses. -/
def DownloadSystem.drift : BitVec 32 :=
  BitVec.ofInt 32 sys.timeoffset - (sys.toUint64 (toDouble sys.timeoffset)).setWidth 32

/-- The range of a playback with a range pointer is that of the chunks that are linked: from the first one's
time less its own offset to one second behind the end of the last one, less that one's offset. -/
def RangeRight (chunks : List Chunk) : Prop :=
  ∀ first last, (listed chunks).head? = some first → (listed chunks).getLast? = some last →
    ∀ destination starttimeoffset range,
      let played := preparePlayback sys chunks destination starttimeoffset (some range) chunks.length
      played.1 = true ∧ played.2.drange = some
        { startTime := BitVec.ofInt 32 (first.epochTime - first.offset sys)
          endTime := BitVec.ofInt 32 (last.epochTime + last.duration.tdiv 1000000 + 1 - last.offset sys) }

/-- The first linked chunk begins with the first that was found; if its header names no time source, what the
current offset loses may make up for it. -/
def BeginsTogether (found first : Chunk) : Prop :=
  BitVec.ofInt 32 (first.epochTime - found.epochTime) = if first.timeSrc ≠ [] then 0 else sys.drift

/-- The last chunk that was found is linked, or ends, with no offset, when the last linked one does with its own. -/
def EndsTogether (found last : Chunk) : Prop :=
  found.path.isSome = true ∨
    BitVec.ofInt 32 (found.epochTime + found.duration.tdiv 1000000) =
      BitVec.ofInt 32 (last.epochTime + last.duration.tdiv 1000000 - last.offset sys)

theorem setWidth_ofInt (x : ℤ) : (BitVec.ofInt 64 x).setWidth 32 = BitVec.ofInt 32 x := by
  apply BitVec.eq_of_toNat_eq
  rw [BitVec.toNat_setWidth, BitVec.toNat_ofInt, BitVec.toNat_ofInt]
  omega

theorem setWidth_ofInt_sub (x : ℤ) (y : BitVec 64) :
    (BitVec.ofInt 64 x - y).setWidth 32 = BitVec.ofInt 32 x - y.setWidth 32 := by
  have hcancel := congrArg (BitVec.setWidth 32) (BitVec.sub_add_cancel (BitVec.ofInt 64 x) y)
  rw [BitVec.setWidth_add _ _ (by decide), setWidth_ofInt] at hcancel
  exact (BitVec.eq_sub_iff_add_eq).mpr hcancel

/-- The ends of the range are those of chunks that are linked. -/
def EndsLinked (chunks : List Chunk) : Prop :=
  ∀ found foundLast first last, chunks.head? = some found → chunks.getLast? = some foundLast →
    (listed chunks).head? = some first → (listed chunks).getLast? = some last →
    BeginsTogether sys found first ∧ EndsTogether sys foundLast last

/-- A linked chunk at the end is the last linked one. -/
theorem getLast?_listed {chunks : List Chunk} {last : Chunk} (h : chunks.getLast? = some last)
    (hpath : last.path.isSome = true) : (listed chunks).getLast? = some last := by
  obtain ⟨before, rfl⟩ := List.getLast?_eq_some_iff.mp h
  rw [listed_append, listed, listed, List.filter_singleton, hpath]
  exact List.getLast?_concat

/-- The offset of the first linked chunk, with the width of the range. -/
theorem setWidth_firstOffset (first : Chunk) :
    (if first.Floats true true then sys.toUint64 (toDouble (first.offset sys))
        else BitVec.ofInt 64 (first.offset sys)).setWidth 32 =
      if first.timeSrc ≠ [] then BitVec.ofInt 32 (first.offset sys)
      else BitVec.ofInt 32 (first.offset sys) - sys.drift := by
  by_cases hsrc : first.timeSrc = []
  · have hfloats : first.Floats true true := ⟨rfl, fun h => absurd hsrc h⟩
    have hoffset : first.offset sys = sys.timeoffset := if_neg (not_not.mpr hsrc)
    rw [if_pos hfloats, if_neg (not_not.mpr hsrc), hoffset, DownloadSystem.drift]
    grind
  · have hfloats : ¬ first.Floats true true := fun h => Bool.noConfusion (h.2 hsrc)
    rw [if_neg hfloats, if_pos hsrc, setWidth_ofInt]

/-- What a playback reports. -/
theorem drange_preparePlayback {chunks : List Chunk} {found foundLast first : Chunk}
    (hfound : chunks.head? = some found) (hfoundLast : chunks.getLast? = some foundLast)
    (hfirst : (listed chunks).head? = some first) (destination : CString) (starttimeoffset : ℤ) (range : DataRange) :
    (preparePlayback sys chunks destination starttimeoffset (some range) chunks.length).2.drange = some
      { startTime := BitVec.ofInt 32 found.epochTime -
          (if first.timeSrc ≠ [] then BitVec.ofInt 32 (first.offset sys)
            else BitVec.ofInt 32 (first.offset sys) - sys.drift)
        endTime := BitVec.ofInt 32 (foundLast.epochTime + foundLast.duration.tdiv 1000000 + 1) -
          if foundLast.path.isSome then BitVec.ofInt 32 (foundLast.offset sys) else 0 } := by
  have hne : chunks ≠ [] := by
    rintro rfl
    cases hfound
  have hlisted : listed chunks ≠ [] := by
    intro h
    rw [h] at hfirst
    cases hfirst
  have hlastEntry : chunks[chunks.length - 1]? = some foundLast := List.getLast?_eq_getElem?.symm.trans hfoundLast
  rw [preparePlayback, if_neg hne, playbackLoop_drange sys hlisted, playbackLoop_firstChunkOffset sys hfirst rfl,
    playbackLoop_lastChunkOffset sys hfoundLast (Nat.zero_add _), Option.map_some, rangeOf, hlastEntry,
    List.headD_eq_head?_getD, hfound, Option.getD_some, Option.getD_some, ← BitVec.ofInt_add, setWidth_ofInt_sub,
    setWidth_ofInt_sub, setWidth_firstOffset, Int.add_assoc]
  cases foundLast.path.isSome with
  | false => rfl
  | true => rw [if_pos rfl, if_pos rfl, setWidth_ofInt]

/-- The start of the range is right when the first linked chunk begins with the first found one. -/
theorem startTime_iff (found first : Chunk) :
    BitVec.ofInt 32 found.epochTime -
        (if first.timeSrc ≠ [] then BitVec.ofInt 32 (first.offset sys)
          else BitVec.ofInt 32 (first.offset sys) - sys.drift) =
      BitVec.ofInt 32 (first.epochTime - first.offset sys) ↔ BeginsTogether sys found first := by
  unfold BeginsTogether
  rw [ofInt_sub, ofInt_sub]
  split <;> constructor <;> intro h <;> grind

/-- The end of the range is right when the last found chunk is the last linked one or ends with it. -/
theorem endTime_iff {chunks : List Chunk} {foundLast last : Chunk} (hfoundLast : chunks.getLast? = some foundLast)
    (hlast : (listed chunks).getLast? = some last) :
    BitVec.ofInt 32 (foundLast.epochTime + foundLast.duration.tdiv 1000000 + 1) -
        (if foundLast.path.isSome then BitVec.ofInt 32 (foundLast.offset sys) else 0) =
      BitVec.ofInt 32 (last.epochTime + last.duration.tdiv 1000000 + 1 - last.offset sys) ↔
      EndsTogether sys foundLast last := by
  unfold EndsTogether
  cases hpath : foundLast.path.isSome with
  | true =>
    obtain rfl : foundLast = last := Option.some.inj ((getLast?_listed hfoundLast hpath).symm.trans hlast)
    rw [if_pos rfl, ← ofInt_sub]
    exact iff_of_true rfl (Or.inl rfl)
  | false =>
    rw [if_neg Bool.false_ne_true, ofInt_sub, ofInt_sub, BitVec.ofInt_add _ 1, BitVec.ofInt_add _ 1]
    simp only [Bool.false_eq_true, false_or]
    constructor <;> intro h <;> grind

/-- The range of a playback is right exactly when its ends are those of linked chunks. -/
theorem rangeRight_iff (chunks : List Chunk) : RangeRight sys chunks ↔ EndsLinked sys chunks := by
  have hcall : ∀ {found foundLast first last}, chunks.head? = some found → chunks.getLast? = some foundLast →
      (listed chunks).head? = some first → (listed chunks).getLast? = some last →
      ∀ destination starttimeoffset range,
        (preparePlayback sys chunks destination starttimeoffset (some range) chunks.length).2.drange = some
            { startTime := BitVec.ofInt 32 (first.epochTime - first.offset sys)
              endTime := BitVec.ofInt 32 (last.epochTime + last.duration.tdiv 1000000 + 1 - last.offset sys) } ↔
          BeginsTogether sys found first ∧ EndsTogether sys foundLast last := by
    intro found foundLast first last hfound hfoundLast hfirst hlast destination starttimeoffset range
    rw [drange_preparePlayback sys hfound hfoundLast hfirst, Option.some_inj, DataRange.mk.injEq, startTime_iff,
      endTime_iff sys hfoundLast hlast]
  constructor
  · intro h found foundLast first last hfound hfoundLast hfirst hlast
    exact (hcall hfound hfoundLast hfirst hlast [] 0 ⟨0, 0⟩).mp (h first last hfirst hlast [] 0 ⟨0, 0⟩).2
  · intro h first last hfirst hlast destination starttimeoffset range
    have hne : chunks ≠ [] := by
      rintro rfl
      cases hfirst
    obtain ⟨found, hfound⟩ := Option.isSome_iff_exists.mp (List.isSome_head?.mpr hne)
    obtain ⟨foundLast, hfoundLast⟩ :=
      Option.ne_none_iff_exists'.mp fun h => hne (List.getLast?_eq_none_iff.mp h)
    refine ⟨?_, (hcall hfound hfoundLast hfirst hlast _ _ _).mpr (h _ _ _ _ hfound hfoundLast hfirst hlast)⟩
    rw [preparePlayback, if_neg hne]

/-- When the first chunk cannot be linked, the range begins at its time, with the offset of the second. -/
theorem not_rangeRight_unlinked : ¬ ∀ (sys : DownloadSystem) (chunks : List Chunk), RangeRight sys chunks := by
  intro h
  have hrange := h (saturating 0)
    [{ headedChunk ['G'] 0 with path := none }, { headedChunk ['G'] 0 with epochTime := 1700000060 }]
    { headedChunk ['G'] 0 with epochTime := 1700000060 } { headedChunk ['G'] 0 with epochTime := 1700000060 }
    rfl rfl "/tmp/playback/1/".toList 0 ⟨0, 0⟩
  exact absurd hrange.2 (by decide +kernel)

end RecordingAgent.Download
