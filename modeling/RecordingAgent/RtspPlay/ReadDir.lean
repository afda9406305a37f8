import RecordingAgent.Metarec.ChunkName
import RecordingAgent.RtspPlay.Reader

/-!
# The links of a session directory

The reader collects the recorded chunks from the symbolic links of a session directory. The buffer for
the path of a link is written over from its begin, but the parts which are appended to it stay, so
from the second link on it is a path behind the links before. Overrunning a buffer and searching a name
without a slash or a dot are undefined in C; the scan then has no result.
-/

namespace RecordingAgent.RtspPlay

open Foundation
open RecordingAgent.Metarec (atol atoiInt baseName)

/-- `struct dirent`: the name, and whether `d_type` is `DT_LNK`. -/
structure Dirent where
  dName : CString
  isLnk : Bool
  deriving DecidableEq, Repr

/-- `MAX_FILE_NAME_SIZE` -/
def maxFileNameSize : ℕ := 1024

/-- What follows the first dot of the name at the end of a path. -/
def pDuration (linkname : CString) : Option CString :=
  (baseName linkname).bind fun name => (strchr name '.').map fun k => name.drop (k + 1)

/-- The chunk list filled so far, and the duration. -/
structure DirScan where
  mVideoData : VideoChunkT CString
  mDuration : ℤ

/-- What `read_dir` returns and leaves. The chunks which were filled in but not counted are left out: no
other function looks at them. -/
structure ReadDirResult where
  code : ℤ
  mVideoData : VideoChunkT CString
  mDuration : ℤ

/-- The zeroed list of the constructor. -/
def VideoChunkT.zero : VideoChunkT CString := ⟨[], Nat.zero_le _⟩

/-- The part of the loop which fills in a chunk. -/
def DirScan.add (s : DirScan) (linkname : CString) : Option DirScan :=
  (pDuration linkname).bind fun text =>
    if h : s.mVideoData.chunckList.length + 1 ≤ maxFileCount then
      some
        { mVideoData :=
            { chunckList := s.mVideoData.chunckList ++ [⟨linkname, ((atol text).tdiv 1000).bmod (2 ^ 32), 0⟩]
              total_le := by simpa using h }
          mDuration := s.mDuration + (atoiInt text).tdiv 1000 }
    else none

section

variable (readlink : CString → Option CString) (inDir pat : CString)

/-- What the call of `readlink` leaves of a target in the buffer, if it has the pattern. -/
def linknameAt (link : CString) : Option CString :=
  ((readlink link).map (·.take (maxFileNameSize - 1))).filter fun linkname => (strstr linkname pat).isSome

/-- The buffer behind the copy of the directory, which does not end the string, and the two concatenations. -/
def concatenated (link name : CString) : CString := inDir ++ link.drop inDir.length ++ '/' :: name

/-- The loop of `read_dir` over the entries that `readdir` returns. `readlink` has the whole target of a
link, of which the call copies what fits the buffer. -/
def readDirLoop : CString → DirScan → List Dirent → Option ReadDirResult
  | _, s, [] =>
    if s.mVideoData.totalChunk = 0 then some ⟨exitFailure, VideoChunkT.zero, s.mDuration⟩
    else some ⟨exitSuccess, s.mVideoData, s.mDuration⟩
  | link, s, inFile :: rest =>
    if inFile.dName = ['.'] then readDirLoop link s rest
    else if inFile.dName = ['.', '.'] then readDirLoop link s rest
    else if inFile.isLnk = false then readDirLoop link s rest
    else if maxFileNameSize - 1 < inDir.length + inFile.dName.length + 1 then
      some ⟨exitFailure, VideoChunkT.zero, s.mDuration⟩
    else
      let link := concatenated inDir link inFile.dName
      if maxFileNameSize ≤ link.length then none
      else
        match linknameAt readlink pat link with
        | none => readDirLoop link s rest
        | some linkname => (s.add linkname).bind fun s => readDirLoop link s rest

/-- `read_dir` as the constructor calls it, with the entries of the directory if it can be opened. -/
def readDir (entries : Option (List Dirent)) : Option ReadDirResult :=
  match entries with
  | none => some ⟨1, VideoChunkT.zero, 0⟩
  | some entries => readDirLoop readlink inDir pat [] ⟨VideoChunkT.zero, 0⟩ entries

/-- The entries of a directory which are links. -/
def links (entries : List Dirent) : List Dirent :=
  entries.filter fun e => e.isLnk && e.dName != ['.'] && e.dName != ['.', '.']

/-- The target of a link of the directory, if it has the pattern. -/
def matchingTarget (e : Dirent) : Option CString :=
  (readlink (inDir ++ '/' :: e.dName)).filter fun target => (strstr target pat).isSome

/-- The targets of the links of a directory which have the pattern. -/
def linkedChunks (entries : List Dirent) : List CString :=
  (links entries).filterMap (matchingTarget readlink inDir pat)

/-- The name of a link leaves no room behind the directory. -/
def tooLong (e : Dirent) : Bool := maxFileNameSize - 1 < inDir.length + e.dName.length + 1

/-- The paths which are looked up for the links of a directory, and whether the scan was left at a name which is
too long. -/
def scanPaths : CString → List Dirent → Option (List CString × Bool)
  | _, [] => some ([], false)
  | link, e :: rest =>
    if tooLong inDir e then some ([], true)
    else
      let link := concatenated inDir link e.dName
      if maxFileNameSize ≤ link.length then none
      else (scanPaths link rest).map fun (paths, left) => (link :: paths, left)

end

/-- The microseconds in the name of a target. -/
def microseconds (target : CString) : Option ℤ := (pDuration target).map atoi

/-- The chunk list has exactly these targets, each once and with its duration in milliseconds, and the
duration is their sum. A scan which overruns a buffer does not find them. -/
def FindsEvery (targets : List CString) (result : Option ReadDirResult) : Prop :=
  ∃ r, result = some r ∧
    (r.mVideoData.chunckList.map ChunkT.path).Perm targets ∧
    (∀ chunk ∈ r.mVideoData.chunckList, (microseconds chunk.path).map (·.tdiv 1000) = some chunk.duration) ∧
    r.mVideoData.totalChunk = targets.length ∧
    r.mDuration = (r.mVideoData.chunckList.map ChunkT.duration).sum

/-- The chunk that is filled in for a target. -/
def chunkOf (linkname : CString) : ChunkT CString :=
  ⟨linkname, ((atol ((pDuration linkname).getD [])).tdiv 1000).bmod (2 ^ 32), 0⟩

/-- What a target adds to the duration. -/
def addedDuration (linkname : CString) : ℤ := (atoiInt ((pDuration linkname).getD [])).tdiv 1000

/-- What the scan returns behind the last entry or at the one where it is left. -/
def DirScan.finish (s : DirScan) (left : Bool) : ReadDirResult :=
  if left ∨ s.mVideoData.totalChunk = 0 then ⟨exitFailure, VideoChunkT.zero, s.mDuration⟩
  else ⟨exitSuccess, s.mVideoData, s.mDuration⟩

section

variable {readlink : CString → Option CString} {inDir pat link : CString} {entries : List Dirent} {s : DirScan}

/-- The loop fills in what is found at the paths it looks up. -/
theorem readDirLoop_eq : readDirLoop readlink inDir pat link s entries =
    (scanPaths inDir link (links entries)).bind fun (paths, left) =>
      ((paths.filterMap (linknameAt readlink pat)).foldlM DirScan.add s).map (·.finish left) := by
  induction entries generalizing link s with
  | nil => simp [readDirLoop, links, scanPaths, DirScan.finish, apply_ite some]
  | cons e rest ih =>
    by_cases hlink : (e.isLnk && e.dName != ['.'] && e.dName != ['.', '.']) = true
    · have hlinks : links (e :: rest) = e :: links rest := List.filter_cons_of_pos hlink
      simp only [Bool.and_eq_true, bne_iff_ne] at hlink
      rw [readDirLoop, hlinks, scanPaths, if_neg hlink.1.2, if_neg hlink.2, if_neg (by simp [hlink.1.1])]
      by_cases hlong : maxFileNameSize - 1 < inDir.length + e.dName.length + 1
      · simp [hlong, tooLong, DirScan.finish]
      · simp only [hlong, tooLong, if_false, decide_false, Bool.false_eq_true]
        split
        · rfl
        · cases hfound : linknameAt readlink pat (concatenated inDir link e.dName) with
          | none =>
            dsimp only
            rw [ih]
            cases scanPaths inDir (concatenated inDir link e.dName) (links rest) with
            | none => rfl
            | some scanned => simp [hfound]
          | some linkname =>
            dsimp only
            cases hadd : s.add linkname with
            | none =>
              cases scanPaths inDir (concatenated inDir link e.dName) (links rest) with
              | none => rfl
              | some scanned => simp [hfound, hadd]
            | some s' =>
              rw [Option.bind_some, ih]
              cases scanPaths inDir (concatenated inDir link e.dName) (links rest) with
              | none => rfl
              | some scanned => simp [hfound, hadd]
    · have hlinks : links (e :: rest) = links rest := List.filter_cons_of_neg hlink
      rw [hlinks, ← ih, readDirLoop]
      simp only [Bool.and_eq_true, bne_iff_ne] at hlink
      split
      · rfl
      · split
        · rfl
        · rw [if_pos]
          cases hisLnk : e.isLnk <;> simp_all

/-- Chunks are filled in as long as their names can be read and there is room. -/
theorem foldlM_add_eq_some_iff {found : List CString} {s' : DirScan} :
    found.foldlM DirScan.add s = some s' ↔
      (∀ t ∈ found, (pDuration t).isSome = true) ∧
        s'.mVideoData.chunckList = s.mVideoData.chunckList ++ found.map chunkOf ∧
        s'.mDuration = s.mDuration + (found.map addedDuration).sum := by
  induction found generalizing s with
  | nil =>
    constructor
    · intro h
      obtain rfl := Option.some.inj h
      simp
    · rintro ⟨-, hlist, hduration⟩
      obtain ⟨⟨chunks, hchunks⟩, duration⟩ := s
      obtain ⟨⟨chunks', hchunks'⟩, duration'⟩ := s'
      obtain rfl : chunks' = chunks := by simpa using hlist
      obtain rfl : duration' = duration := by simpa using hduration
      rfl
  | cons t found ih =>
    rw [List.foldlM_cons, Option.bind_eq_bind, List.forall_mem_cons]
    cases htext : pDuration t with
    | none => simp [DirScan.add, htext]
    | some text =>
      by_cases hroom : s.mVideoData.chunckList.length + 1 ≤ maxFileCount
      · simp [DirScan.add, htext, hroom, ih, chunkOf, addedDuration, add_assoc]
      · have hlength := s'.mVideoData.total_le
        simp only [DirScan.add, htext, Option.bind_some, hroom, dite_false, Option.bind_none]
        refine iff_of_false (by simp) ?_
        rintro ⟨-, hlist, -⟩
        rw [hlist, List.length_append, List.length_map, List.length_cons] at hlength
        omega

/-- What the scan finds at the paths is what the links of the directory lead to, and its names and
durations can be read. -/
structure ReadsLinks (readlink : CString → Option CString) (inDir pat : CString) (entries : List Dirent)
    (found : List CString) (left : Bool) : Prop where
  named : ∀ t ∈ found, (pDuration t).isSome = true
  room : found.length ≤ maxFileCount
  same : (if left then [] else found).Perm (linkedChunks readlink inDir pat entries)
  durations : ∀ t ∈ linkedChunks readlink inDir pat entries,
    (microseconds t).map (·.tdiv 1000) = some (chunkOf t).duration
  total : (found.map addedDuration).sum =
    ((linkedChunks readlink inDir pat entries).map fun t => (chunkOf t).duration).sum

theorem map_path_chunkOf (found : List CString) : (found.map chunkOf).map ChunkT.path = found := by
  rw [List.map_map]
  exact List.map_id found

/-- A chunk list which was finished has the chunks that were found, or none if the scan was left. -/
theorem finish_chunckList {found : List CString} {left : Bool}
    (hlist : s.mVideoData.chunckList = found.map chunkOf) :
    (s.finish left).mVideoData.chunckList = (if left then [] else found).map chunkOf := by
  unfold DirScan.finish
  cases left with
  | true => rfl
  | false =>
    by_cases hempty : s.mVideoData.totalChunk = 0
    · have hfound : found = [] := by simpa [VideoChunkT.totalChunk, hlist] using hempty
      simp [hempty, hfound, VideoChunkT.zero]
    · simp [hempty, hlist]

theorem finish_mDuration (left : Bool) : (s.finish left).mDuration = s.mDuration := by
  unfold DirScan.finish
  split <;> rfl

/-- The scan finds every link exactly if it overruns no buffer and reads the links. -/
theorem findsEvery_iff_readsLinks :
    FindsEvery (linkedChunks readlink inDir pat entries) (readDir readlink inDir pat (some entries)) ↔
      ∃ paths left, scanPaths inDir [] (links entries) = some (paths, left) ∧
        ReadsLinks readlink inDir pat entries (paths.filterMap (linknameAt readlink pat)) left := by
  rw [readDir, readDirLoop_eq]
  cases hpaths : scanPaths inDir [] (links entries) with
  | none => simp [FindsEvery]
  | some scanned =>
    obtain ⟨paths, left⟩ := scanned
    simp only [Option.bind_some, Option.some.injEq, Prod.mk.injEq, ↓existsAndEq, and_true, true_and]
    generalize paths.filterMap (linknameAt readlink pat) = found
    constructor
    · rintro ⟨r, hr, hperm, hdurations, htotal, hsum⟩
      obtain ⟨s, hs, rfl⟩ := Option.map_eq_some_iff.mp hr
      obtain ⟨hnamed, hlist, hduration⟩ := foldlM_add_eq_some_iff.mp hs
      simp only [VideoChunkT.zero, List.nil_append, zero_add] at hlist hduration
      rw [finish_chunckList hlist] at hperm hdurations hsum
      rw [map_path_chunkOf] at hperm
      rw [finish_mDuration, hduration, List.map_map] at hsum
      refine ⟨hnamed, ?_, hperm, ?_, ?_⟩
      · have hroom := s.mVideoData.total_le
        rwa [hlist, List.length_map] at hroom
      · intro t ht
        exact hdurations (chunkOf t) (List.mem_map_of_mem (hperm.mem_iff.mpr ht))
      · rw [hsum]
        exact (hperm.map _).sum_eq
    · rintro ⟨hnamed, hroom, hperm, hdurations, htotal⟩
      let s : DirScan := ⟨⟨found.map chunkOf, by rwa [List.length_map]⟩, (found.map addedDuration).sum⟩
      have hs : found.foldlM DirScan.add ⟨VideoChunkT.zero, 0⟩ = some s := by
        rw [foldlM_add_eq_some_iff]
        exact ⟨hnamed, by simp [s, VideoChunkT.zero], by simp [s]⟩
      have hlist : (s.finish left).mVideoData.chunckList = (if left then [] else found).map chunkOf :=
        finish_chunckList rfl
      refine ⟨s.finish left, by rw [hs]; rfl, ?_, ?_, ?_, ?_⟩
      · rw [hlist, map_path_chunkOf]
        exact hperm
      · intro chunk hchunk
        rw [hlist] at hchunk
        obtain ⟨t, ht, rfl⟩ := List.mem_map.mp hchunk
        exact hdurations t (hperm.mem_iff.mp ht)
      · rw [VideoChunkT.totalChunk, hlist, List.length_map]
        exact hperm.length_eq
      · rw [hlist, finish_mDuration, List.map_map]
        exact htotal.trans (hperm.map _).sum_eq.symm

/-- Nothing is read behind a link of the directory: a link to a file ends the path. -/
def NothingBehind (readlink : CString → Option CString) (inDir : CString) (entries : List Dirent) : Prop :=
  ∀ e ∈ links entries, ∀ rest, readlink (inDir ++ '/' :: e.dName ++ '/' :: rest) = none

/-- The links before the first whose name is too long. -/
def shortLinks (inDir : CString) (entries : List Dirent) : List Dirent :=
  (links entries).takeWhile fun e => ! tooLong inDir e

/-- Only the first link has the pattern, its target can be read, and the names of all links fit the buffer behind
one another, up to one which is too long alone. -/
structure OnlyFirstMatches (readlink : CString → Option CString) (inDir pat : CString) (entries : List Dirent) :
    Prop where
  fits : shortLinks inDir entries ≠ [] →
    inDir.length + ((shortLinks inDir entries).map (·.dName.length + 1)).sum < maxFileNameSize
  others : ∀ e ∈ (links entries).tail, matchingTarget readlink inDir pat e = none
  first : ∀ e ∈ (links entries).head?, ∀ t ∈ matchingTarget readlink inDir pat e,
    shortLinks inDir entries = links entries ∧ t.length < maxFileNameSize ∧
      ∃ us ∈ microseconds t, -2 ^ 31 ≤ us ∧ us < 2 ^ 31

variable {es : List Dirent}

theorem concatenated_of_prefix (hlink : inDir <+: link) (name : CString) :
    concatenated inDir link name = link ++ '/' :: name := by
  obtain ⟨rest, rfl⟩ := hlink
  rw [concatenated, List.drop_left]

/-- Behind the first link the scan overruns its buffer exactly if the names do not fit behind one another. -/
theorem scanPaths_isSome_iff (hlink : inDir <+: link) (hroom : link.length < maxFileNameSize) :
    (scanPaths inDir link es).isSome = true ↔
      link.length + ((es.takeWhile fun e => ! tooLong inDir e).map (·.dName.length + 1)).sum < maxFileNameSize := by
  induction es generalizing link with
  | nil => simpa [scanPaths] using hroom
  | cons e rest ih =>
    rw [scanPaths, List.takeWhile_cons]
    by_cases hlong : tooLong inDir e = true
    · simpa [hlong] using hroom
    · have hlength : (link ++ '/' :: e.dName).length = link.length + (e.dName.length + 1) := by simp
      simp only [hlong, if_false, Bool.false_eq_true, concatenated_of_prefix hlink, Bool.not_false, if_true,
        List.map_cons, List.sum_cons, ← Nat.add_assoc link.length] at hlength ⊢
      by_cases hover : maxFileNameSize ≤ (link ++ '/' :: e.dName).length
      · simp only [hover, if_true, Option.isSome_none, Bool.false_eq_true, false_iff]
        omega
      · rw [if_neg hover, Option.isSome_map, ih (hlink.trans (List.prefix_append _ _)) (by omega), hlength]

/-- Behind the first link the scan looks up paths behind it, and it is left if a name is too long. -/
theorem scanPaths_behind (hlink : inDir <+: link) {paths : List CString} {left : Bool}
    (h : scanPaths inDir link es = some (paths, left)) :
    (∀ p ∈ paths, ∃ rest, p = link ++ '/' :: rest) ∧ left = es.any (tooLong inDir) := by
  induction es generalizing link paths with
  | nil =>
    obtain ⟨rfl, rfl⟩ := Prod.mk.inj (Option.some.inj h)
    simp
  | cons e rest ih =>
    rw [scanPaths] at h
    by_cases hlong : tooLong inDir e = true
    · rw [if_pos hlong] at h
      obtain ⟨rfl, rfl⟩ := Prod.mk.inj (Option.some.inj h)
      simp [hlong]
    · simp only [hlong, if_false, Bool.false_eq_true, concatenated_of_prefix hlink] at h
      split at h
      · cases h
      · obtain ⟨⟨paths', left'⟩, hscan, heq⟩ := Option.map_eq_some_iff.mp h
        obtain ⟨rfl, rfl⟩ := Prod.mk.inj heq
        obtain ⟨hpaths, hleft⟩ := ih (hlink.trans (List.prefix_append _ _)) hscan
        constructor
        · intro p hp
          rcases List.mem_cons.mp hp with rfl | hp
          · exact ⟨e.dName, rfl⟩
          · obtain ⟨more, rfl⟩ := hpaths p hp
            exact ⟨e.dName ++ '/' :: more, by simp⟩
        · simpa [hlong] using hleft

/-- `atoi` finds the milliseconds of a number exactly if it is an `int`. -/
theorem atoiInt_tdiv_iff (text : CString) :
    (atoiInt text).tdiv 1000 = (atoi text).tdiv 1000 ↔ -2 ^ 31 ≤ atoi text ∧ atoi text < 2 ^ 31 := by
  have hlow := Int.le_bmod (x := atol text) (show 0 < 2 ^ 32 by decide)
  have hhigh := Int.bmod_lt (x := atol text) (show 0 < 2 ^ 32 by decide)
  have hmod := Int.bmod_emod (x := atol text) (m := 2 ^ 32)
  have hatol : atol text = max (-2 ^ 63) (min (2 ^ 63 - 1) (atoi text)) := rfl
  rw [atoiInt]
  constructor
  · intro h
    have hvalue := Int.mul_tdiv_add_tmod (atoi text) 1000
    have hwrapped := Int.mul_tdiv_add_tmod ((atol text).bmod (2 ^ 32)) 1000
    have hrest := Int.tmod_lt_of_pos (atoi text) (show (0 : ℤ) < 1000 by decide)
    have hrest' := Int.lt_tmod_of_pos (atoi text) (show (0 : ℤ) < 1000 by decide)
    have hover := Int.tmod_lt_of_pos ((atol text).bmod (2 ^ 32)) (show (0 : ℤ) < 1000 by decide)
    have hover' := Int.lt_tmod_of_pos ((atol text).bmod (2 ^ 32)) (show (0 : ℤ) < 1000 by decide)
    rw [h] at hwrapped
    omega
  · rintro ⟨h, h'⟩
    rw [Int.bmod_eq_of_le (by omega) (by omega)]
    congr 1
    omega

/-- A target which is read has the pattern, as the part of it that fits the buffer. -/
theorem linknameAt_eq_some_iff {linkname : CString} :
    linknameAt readlink pat link = some linkname ↔
      ∃ t, readlink link = some t ∧ t.take (maxFileNameSize - 1) = linkname ∧
        (strstr linkname pat).isSome = true := by
  simp only [linknameAt, Option.filter_eq_some_iff, Option.map_eq_some_iff]
  constructor
  · rintro ⟨⟨t, ht, rfl⟩, hpat⟩
    exact ⟨t, ht, rfl, hpat⟩
  · rintro ⟨t, ht, rfl, hpat⟩
    exact ⟨⟨t, ht, rfl⟩, hpat⟩

theorem matchingTarget_eq_some_iff {e : Dirent} {t : CString} :
    matchingTarget readlink inDir pat e = some t ↔
      readlink (inDir ++ '/' :: e.dName) = some t ∧ (strstr t pat).isSome = true := by
  rw [matchingTarget, Option.filter_eq_some_iff]

/-- What is read of a link without the pattern has not got the pattern. -/
theorem linknameAt_of_matchingTarget_none {e : Dirent} (h : matchingTarget readlink inDir pat e = none) :
    linknameAt readlink pat (inDir ++ '/' :: e.dName) = none := by
  rw [Option.eq_none_iff_forall_ne_some]
  intro linkname hfound
  obtain ⟨t, ht, rfl, hpat⟩ := linknameAt_eq_some_iff.mp hfound
  have hsegment : pat <:+: t := ((strstr_isSome_iff _ _).mp hpat).trans (List.take_prefix _ _).isInfix
  have hsome : matchingTarget readlink inDir pat e = some t :=
    matchingTarget_eq_some_iff.mpr ⟨ht, (strstr_isSome_iff _ _).mpr hsegment⟩
  rw [h] at hsome
  cases hsome

/-- The target of a link is read as it is exactly if it fits the buffer. -/
theorem linknameAt_eq_some_target_iff {e : Dirent} {t : CString} (h : matchingTarget readlink inDir pat e = some t) :
    linknameAt readlink pat (inDir ++ '/' :: e.dName) = some t ↔ t.length < maxFileNameSize := by
  obtain ⟨ht, hpat⟩ := matchingTarget_eq_some_iff.mp h
  rw [linknameAt_eq_some_iff]
  constructor
  · rintro ⟨t', ht', htake, -⟩
    obtain rfl := Option.some.inj (ht.symm.trans ht')
    have hlength := congrArg List.length htake
    rw [List.length_take] at hlength
    have hpos : 0 < maxFileNameSize := by decide
    omega
  · intro hlength
    exact ⟨t, ht, List.take_of_length_le (by omega), hpat⟩

/-- A single target is read exactly if its microseconds are an `int`. -/
theorem durations_iff {t : CString} :
    ((pDuration t).isSome = true ∧ (microseconds t).map (·.tdiv 1000) = some (chunkOf t).duration ∧
        addedDuration t = (chunkOf t).duration) ↔
      ∃ us ∈ microseconds t, -2 ^ 31 ≤ us ∧ us < 2 ^ 31 := by
  cases htext : pDuration t with
  | none => simp [microseconds, htext]
  | some text =>
    simp only [Option.isSome_some, true_and, microseconds, htext, Option.map_some, Option.mem_some_iff,
      exists_eq_left', Option.some.injEq, addedDuration, chunkOf, Option.getD_some]
    rw [← atoiInt_tdiv_iff]
    constructor
    · rintro ⟨hmillis, hadded⟩
      rw [hadded, hmillis]
    · intro hadded
      have hrange := (atoiInt_tdiv_iff text).mp hadded
      have hatol : atol text = atoi text := by
        rw [atol]
        omega
      have hsmall : ((atoi text).tdiv 1000).bmod (2 ^ 32) = (atoi text).tdiv 1000 := by
        have hvalue := Int.mul_tdiv_add_tmod (atoi text) 1000
        have hrest := Int.tmod_lt_of_pos (atoi text) (show (0 : ℤ) < 1000 by decide)
        have hrest' := Int.lt_tmod_of_pos (atoi text) (show (0 : ℤ) < 1000 by decide)
        exact Int.bmod_eq_of_le (by omega) (by omega)
      rw [hadded, hatol, hsmall]
      exact ⟨rfl, rfl⟩

/-- A scan which finds nothing reads the links exactly if none has the pattern. -/
theorem readsLinks_nil_iff {left : Bool} :
    ReadsLinks readlink inDir pat entries [] left ↔ linkedChunks readlink inDir pat entries = [] := by
  constructor
  · intro h
    have hsame := h.same
    rw [ite_self] at hsame
    exact hsame.symm.eq_nil
  · intro h
    constructor <;> simp [h]

/-- A scan which reads the first link alone reads the links exactly if no other has the pattern, and the target
of the first can be read. -/
theorem readsLinks_first_iff {e : Dirent} {left : Bool} (hlinks : links entries = e :: es) :
    ReadsLinks readlink inDir pat entries (linknameAt readlink pat (inDir ++ '/' :: e.dName)).toList left ↔
      (∀ e' ∈ es, matchingTarget readlink inDir pat e' = none) ∧
        ∀ t ∈ matchingTarget readlink inDir pat e, left = false ∧ t.length < maxFileNameSize ∧
          ∃ us ∈ microseconds t, -2 ^ 31 ≤ us ∧ us < 2 ^ 31 := by
  have hothers : es.filterMap (matchingTarget readlink inDir pat) = [] ↔
      ∀ e' ∈ es, matchingTarget readlink inDir pat e' = none := List.filterMap_eq_nil_iff
  cases hfirst : matchingTarget readlink inDir pat e with
  | none =>
    have hlinked : linkedChunks readlink inDir pat entries = es.filterMap (matchingTarget readlink inDir pat) := by
      rw [linkedChunks, hlinks, List.filterMap_cons_none hfirst]
    simp only [linknameAt_of_matchingTarget_none hfirst, Option.toList_none, Option.mem_def, reduceCtorEq,
      false_imp_iff, implies_true, and_true, ← hothers, ← hlinked, readsLinks_nil_iff]
  | some t =>
    have hlinked : linkedChunks readlink inDir pat entries = t :: es.filterMap (matchingTarget readlink inDir pat) := by
      rw [linkedChunks, hlinks, List.filterMap_cons_some hfirst]
    simp only [Option.mem_def, Option.some.injEq, forall_eq', ← linknameAt_eq_some_target_iff hfirst, ← hothers]
    constructor
    · intro h
      have hsame := h.same
      rw [hlinked] at hsame
      cases left with
      | true => cases hsame.symm.eq_nil
      | false =>
        cases hfound : linknameAt readlink pat (inDir ++ '/' :: e.dName) with
        | none =>
          rw [hfound] at hsame
          cases hsame.symm.eq_nil
        | some linkname =>
          rw [hfound] at hsame h
          obtain ⟨rfl, hnone⟩ := List.cons.inj (List.perm_singleton.mp hsame.symm)
          refine ⟨hnone, rfl, rfl, durations_iff.mp ⟨?_, ?_, ?_⟩⟩
          · exact h.named t List.mem_cons_self
          · exact h.durations t (by rw [hlinked]; exact List.mem_cons_self)
          · have htotal := h.total
            rw [hlinked, hnone] at htotal
            simpa using htotal
    · rintro ⟨hnone, rfl, hfound, hmicro⟩
      obtain ⟨hnamed, hmillis, hadded⟩ := durations_iff.mpr hmicro
      rw [hnone] at hlinked
      rw [hfound]
      constructor <;> simp [hlinked, hnamed, Option.map_eq_some_iff.mp hmillis, hadded, maxFileCount]

/-- Where nothing is read behind a link, a scan which is not left at the first link finds at most that one. -/
theorem scan_first_iff {e : Dirent} {P : List CString → Bool → Prop}
    (hbehind : NothingBehind readlink inDir entries) (hlinks : links entries = e :: es) (hshort : ¬ tooLong inDir e = true) :
    (∃ paths left, scanPaths inDir [] (links entries) = some (paths, left) ∧
        P (paths.filterMap (linknameAt readlink pat)) left) ↔
      inDir.length + ((shortLinks inDir entries).map (·.dName.length + 1)).sum < maxFileNameSize ∧
        P (linknameAt readlink pat (inDir ++ '/' :: e.dName)).toList (es.any (tooLong inDir)) := by
  have hfirst : concatenated inDir [] e.dName = inDir ++ '/' :: e.dName := by
    rw [concatenated, List.drop_nil, List.append_nil]
  have hroom : (inDir ++ '/' :: e.dName).length < maxFileNameSize := by
    simp only [tooLong, decide_eq_true_eq, not_lt] at hshort
    simp only [List.length_append, List.length_cons]
    have hpos : 0 < maxFileNameSize := by decide
    omega
  have hprefix : inDir <+: inDir ++ '/' :: e.dName := List.prefix_append _ _
  have hfits : (scanPaths inDir (inDir ++ '/' :: e.dName) es).isSome = true ↔ _ := scanPaths_isSome_iff hprefix hroom
  have hsum : inDir.length + ((shortLinks inDir entries).map (·.dName.length + 1)).sum =
      (inDir ++ '/' :: e.dName).length +
        ((es.takeWhile fun e => ! tooLong inDir e).map (·.dName.length + 1)).sum := by
    rw [shortLinks, hlinks, List.takeWhile_cons_of_pos (by simpa using hshort)]
    simp [Nat.add_assoc]
  rw [hsum, ← hfits, hlinks, scanPaths, if_neg hshort, hfirst, if_neg (by omega)]
  cases hscan : scanPaths inDir (inDir ++ '/' :: e.dName) es with
  | none => simp
  | some scanned =>
    obtain ⟨paths, left⟩ := scanned
    obtain ⟨hpaths, rfl⟩ := scanPaths_behind hprefix hscan
    have hunread : paths.filterMap (linknameAt readlink pat) = [] := by
      rw [List.filterMap_eq_nil_iff]
      intro p hp
      obtain ⟨rest, rfl⟩ := hpaths p hp
      rw [linknameAt, hbehind e (by rw [hlinks]; exact List.mem_cons_self) rest]
      rfl
    have hfound : (((inDir ++ '/' :: e.dName) :: paths).filterMap (linknameAt readlink pat)) =
        (linknameAt readlink pat (inDir ++ '/' :: e.dName)).toList := by
      rw [List.filterMap_cons, hunread]
      cases linknameAt readlink pat (inDir ++ '/' :: e.dName) <;> rfl
    simp only [Option.map_some, Option.isSome_some, true_and]
    constructor
    · rintro ⟨paths', left', heq, hP⟩
      obtain ⟨rfl, rfl⟩ := Prod.mk.inj (Option.some.inj heq)
      rwa [hfound] at hP
    · intro hP
      exact ⟨_, _, rfl, by rwa [hfound]⟩

/-- A scan which is left at its first link finds every link exactly if none has the pattern. -/
theorem findsEvery_iff_of_tooLong {e : Dirent} (hlinks : links entries = e :: es) (hlong : tooLong inDir e = true) :
    FindsEvery (linkedChunks readlink inDir pat entries) (readDir readlink inDir pat (some entries)) ↔
      OnlyFirstMatches readlink inDir pat entries := by
  have hshort : shortLinks inDir entries = [] := by
    rw [shortLinks, hlinks, List.takeWhile_cons_of_neg (by simp [hlong])]
  have hscan : scanPaths inDir [] (links entries) = some ([], true) := by rw [hlinks, scanPaths, if_pos hlong]
  have hfinds : FindsEvery (linkedChunks readlink inDir pat entries) (readDir readlink inDir pat (some entries)) ↔
      linkedChunks readlink inDir pat entries = [] := by
    rw [findsEvery_iff_readsLinks]
    simp [hscan, readsLinks_nil_iff]
  rw [hfinds, linkedChunks, List.filterMap_eq_nil_iff, hlinks]
  constructor
  · intro hnone
    constructor
    · exact fun h => absurd hshort h
    · intro e' he'
      rw [hlinks] at he'
      exact hnone e' (List.mem_cons_of_mem e he')
    · intro e' he' t ht
      rw [hlinks] at he'
      obtain rfl := Option.some.inj he'
      rw [hnone e List.mem_cons_self] at ht
      cases ht
  · intro h e' he'
    rcases List.mem_cons.mp he' with rfl | he'
    · rw [Option.eq_none_iff_forall_ne_some]
      intro t ht
      have hall := (h.first e' (by rw [hlinks]; rfl) t ht).1
      rw [hshort, hlinks] at hall
      cases hall
    · exact h.others e' (by rw [hlinks]; exact he')

/-- Where nothing is read behind a link, a scan which goes on behind its first link finds every link exactly if no
other link has the pattern and no buffer is overrun. -/
theorem findsEvery_iff_of_not_tooLong {e : Dirent} (hbehind : NothingBehind readlink inDir entries)
    (hlinks : links entries = e :: es) (hlong : ¬ tooLong inDir e = true) :
    FindsEvery (linkedChunks readlink inDir pat entries) (readDir readlink inDir pat (some entries)) ↔
      OnlyFirstMatches readlink inDir pat entries := by
  have hne : shortLinks inDir entries ≠ [] := by
    rw [shortLinks, hlinks, List.takeWhile_cons_of_pos (by simpa using hlong)]
    exact List.cons_ne_nil _ _
  have hall : es.any (tooLong inDir) = false ↔ shortLinks inDir entries = links entries := by
    rw [shortLinks, List.takeWhile_eq_self_iff, hlinks]
    simp [hlong]
  rw [findsEvery_iff_readsLinks, scan_first_iff hbehind hlinks hlong, readsLinks_first_iff hlinks]
  constructor
  · rintro ⟨hfits, hothers, hfirst⟩
    constructor
    · exact fun _ => hfits
    · rw [hlinks]
      exact hothers
    · intro e' he' t ht
      rw [hlinks] at he'
      obtain rfl := Option.some.inj he'
      obtain ⟨hleft, hlength, hmicro⟩ := hfirst t ht
      exact ⟨hall.mp hleft, hlength, hmicro⟩
  · intro h
    refine ⟨h.fits hne, ?_, ?_⟩
    · intro e' he'
      exact h.others e' (by rw [hlinks]; exact he')
    · intro t ht
      obtain ⟨hleft, hlength, hmicro⟩ := h.first e (by rw [hlinks]; rfl) t ht
      exact ⟨hall.mpr hleft, hlength, hmicro⟩

end

/-- Playback finds every linked chunk exactly if the scan overruns no buffer and what it finds at its paths is what
the links of the directory lead to. Where nothing is read behind a link, this is so exactly if only the first link
has the pattern. -/
theorem readDir_findsEvery_iff (readlink : CString → Option CString) (inDir pat : CString) (entries : List Dirent) :
    (FindsEvery (linkedChunks readlink inDir pat entries) (readDir readlink inDir pat (some entries)) ↔
      ∃ paths left, scanPaths inDir [] (links entries) = some (paths, left) ∧
        ReadsLinks readlink inDir pat entries (paths.filterMap (linknameAt readlink pat)) left) ∧
    (NothingBehind readlink inDir entries →
      (FindsEvery (linkedChunks readlink inDir pat entries) (readDir readlink inDir pat (some entries)) ↔
        OnlyFirstMatches readlink inDir pat entries)) := by
  constructor
  · exact findsEvery_iff_readsLinks
  · intro hbehind
    cases hlinks : links entries with
    | nil =>
      have hshort : shortLinks inDir entries = [] := by rw [shortLinks, hlinks]; rfl
      have hlinked : linkedChunks readlink inDir pat entries = [] := by rw [linkedChunks, hlinks]; rfl
      rw [findsEvery_iff_readsLinks]
      refine iff_of_true ⟨[], false, by rw [hlinks]; rfl, readsLinks_nil_iff.mpr hlinked⟩ ?_
      constructor <;> simp [hlinks, hshort]
    | cons e es =>
      by_cases hlong : tooLong inDir e = true
      · exact findsEvery_iff_of_tooLong hlinks hlong
      · exact findsEvery_iff_of_not_tooLong hbehind hlinks hlong

/-- A directory `s` with two links to chunks and one to something else. -/
def sampleReadlink (path : CString) : Option CString :=
  if path = "s/a".toList then some "/d/a.5000.vra".toList
  else if path = "s/b".toList then some "/d/b.7000.vra".toList
  else if path = "s/c".toList then some "/d/notes".toList
  else none

/-- One link to a chunk, and behind it a file and a link to something else. -/
theorem readDir_findsEvery_first :
    FindsEvery (linkedChunks sampleReadlink "s".toList ".vra".toList
        [⟨"a".toList, true⟩, ⟨"f".toList, false⟩, ⟨"c".toList, true⟩])
      (readDir sampleReadlink "s".toList ".vra".toList
        (some [⟨"a".toList, true⟩, ⟨"f".toList, false⟩, ⟨"c".toList, true⟩])) := by
  refine ((readDir_findsEvery_iff _ _ _ _).2 ?_).mpr ?_
  · intro e he rest
    have hlinks : e ∈ [(⟨"a".toList, true⟩ : Dirent), ⟨"c".toList, true⟩] := he
    rcases List.mem_pair.mp hlinks with rfl | rfl <;> simp [sampleReadlink]
  · constructor <;> decide

/-- Of two links to chunks the second is not found. -/
theorem readDir_misses_second :
    ¬ FindsEvery (linkedChunks sampleReadlink "s".toList ".vra".toList [⟨"a".toList, true⟩, ⟨"b".toList, true⟩])
      (readDir sampleReadlink "s".toList ".vra".toList (some [⟨"a".toList, true⟩, ⟨"b".toList, true⟩])) := by
  rintro ⟨r, hr, -, -, htotal, -⟩
  have hone : (readDir sampleReadlink "s".toList ".vra".toList
      (some [⟨"a".toList, true⟩, ⟨"b".toList, true⟩])).map (·.mVideoData.totalChunk) = some 1 := by decide
  rw [hr, Option.map_some, htotal] at hone
  exact absurd hone (by decide)

end RecordingAgent.RtspPlay
