import RecordingAgent.RtspPlay.ScaleSafety
import RecordingAgent.RtspPlay.SeekPosition

/-!
# When a seek returns

Forwards, a seek fetches packets until one reaches the position, and reads a closed file when none is left.
Backwards, it goes back to the beginning and seeks again, and does so forever if the position is behind it
every time.
-/

namespace RecordingAgent.RtspPlay

namespace RTPdumpFileSource

variable {P : Type} {disk : P → Option (List UInt8)} {data : VideoChunkT P} {s s' : RTPdumpFileSource P}
  {pos : ℤ} {fuel : ℕ}

/-- The offset of the first packet, if these are read next. -/
def firstTime (s : RTPdumpFileSource P) : List RDBuffer → ℤ
  | [] => s.mFirst
  | p :: _ => s.firstOffset p

/-- One of the packets which are read next reaches the position as a number, and the speed can divide. -/
def ReachesFrom (s : RTPdumpFileSource P) (pos : ℤ) (packets : List RDBuffer) : Prop :=
  s.speedDivisor ≠ none ∧ ∃ p ∈ packets, pos ≤ relative (s.firstTime packets) p

theorem firstOffset_nonneg (s : RTPdumpFileSource P) (p : RDBuffer) : 0 ≤ s.firstOffset p := by
  unfold firstOffset
  split <;> omega

/-- Once the first packet is known, the others are placed by it. -/
theorem firstTime_eq (h : 0 ≤ s.mFirst) (packets : List RDBuffer) : s.firstTime packets = s.mFirst := by
  cases packets with
  | nil => rfl
  | cons p rest => exact if_neg (not_lt.mpr h)

/-- A loop which returns, has found a packet which reaches the position. -/
theorem reachesFrom_of_scan (hsound : Sound data s) (hpos : s.mPos < pos)
    (h : s.scan disk pos fuel = some s') : s.ReachesFrom pos (s.mReader.unread disk) := by
  induction fuel generalizing s with
  | zero => cases h
  | succ fuel ih =>
    rcases hsound.reader with hclosed | hreading
    · rw [scan_closed hsound hclosed hpos] at h
      cases h
    · rw [scan, if_pos hpos, handlerFuel] at h
      cases hunread : s.mReader.unread disk with
      | nil =>
        obtain ⟨t, hcall, hsound', hclosed, hpos'⟩ :=
          playHandler_seek_ended (s.mReader.unread disk).length hsound hreading hunread
        rw [hcall, Option.bind_some, scan_closed hsound' hclosed (hpos'.symm ▸ hpos)] at h
        cases h
      | cons p rest =>
        obtain ⟨hslow, hfetch⟩ := playHandler_seek_next (s.mReader.unread disk).length hsound hreading hunread
        by_cases hspeed : s.speedDivisor = none
        · rw [hslow hspeed] at h
          cases h
        · obtain ⟨t, hcall, hsound', hrest, hfirst, hspeed', hplace, -⟩ := hfetch hspeed
          rw [hcall, Option.bind_some] at h
          by_cases hreached : pos ≤ relative (s.firstOffset p) p
          · exact ⟨hspeed, p, List.mem_cons_self, hreached⟩
          · -- the loop goes on behind this packet
            have hbefore : t.mPos < pos := hplace ▸ not_le.mp hreached
            obtain ⟨-, q, hq, hle⟩ := ih hsound' hbefore h
            rw [hrest] at hq hle
            rw [firstTime_eq (hfirst ▸ firstOffset_nonneg s p), hfirst] at hle
            exact ⟨hspeed, q, List.mem_cons_of_mem p hq, hle⟩

/-- A packet which reaches the position ends the loop. -/
theorem scan_of_reachesFrom (hsound : Sound data s) (hfuel : (s.mReader.unread disk).length + 1 ≤ fuel)
    (h : s.ReachesFrom pos (s.mReader.unread disk)) : ∃ s', s.scan disk pos fuel = some s' := by
  induction fuel generalizing s with
  | zero => omega
  | succ fuel ih =>
    rw [scan]
    split
    case isFalse => exact ⟨s, rfl⟩
    case isTrue hpos =>
      obtain ⟨hspeed, q, hq, hle⟩ := h
      have hreading : s.mReader.Reading := by
        rcases hsound.reader with hclosed | hreading
        · rw [RTPdumpFileReader.unread, hclosed] at hq
          cases hq
        · exact hreading
      obtain ⟨p, rest, hunread⟩ := List.exists_cons_of_ne_nil (List.ne_nil_of_mem hq)
      obtain ⟨t, hcall, hsound', hrest, hfirst, hspeed', hplace, -⟩ :=
        (playHandler_seek_next (s.mReader.unread disk).length hsound hreading hunread).2 hspeed
      rw [handlerFuel, hcall, Option.bind_some]
      rw [hunread, List.length_cons] at hfuel
      by_cases hreached : pos ≤ relative (s.firstOffset p) p
      · obtain ⟨fuel, rfl⟩ : ∃ k, fuel = k + 1 := ⟨fuel - 1, by omega⟩
        rw [scan, if_neg (hplace ▸ not_lt.mpr hreached)]
        exact ⟨t, rfl⟩
      · -- this packet is not the one
        rw [hunread] at hq hle
        rcases List.mem_cons.mp hq with rfl | hq
        · exact absurd hle hreached
        · have hdivides : t.speedDivisor ≠ none := by rwa [speedDivisor, hspeed', ← speedDivisor]
          refine ih hsound' (by rw [hrest]; omega) ⟨hdivides, q, by rwa [hrest], ?_⟩
          rwa [hrest, firstTime_eq (hfirst ▸ firstOffset_nonneg s p), hfirst]

/-- The loop returns within its bound or never. -/
theorem scan_returns_iff (hsound : Sound data s) (hpos : s.mPos < pos) :
    (∃ s', s.scan disk pos (s.handlerFuel disk + 1) = some s') ↔ s.ReachesFrom pos (s.mReader.unread disk) := by
  constructor
  · rintro ⟨s', h⟩
    exact reachesFrom_of_scan hsound hpos h
  · exact scan_of_reachesFrom hsound (by rw [handlerFuel]; omega)

/-- For a seek forwards: a packet which is left reaches the position; or no chunk is sought for it, or that
fails; or the begin of the chunk which is sought reaches the position, or one of the packets from there on. -/
def ForwardReturns (disk : P → Option (List UInt8)) (s : RTPdumpFileSource P) (pos : ℤ) : Prop :=
  if s.mReader.inChunk pos s.mReader.mIndex then s.ReachesFrom pos (s.mReader.unread disk)
  else
    ∀ i, s.mReader.findChunk pos = some i →
      (RTPdumpFileReader.openChunk disk { s.mReader with mIndex := i }).1 = true →
      s.mReader.foundStart i ≠ -1 →
      pos ≤ (if s.mReader.foundStart i = 0 then s.mPos else s.mReader.foundStart i) ∨
        s.ReachesFrom pos (unreadChunks disk (s.mReader.mVideoData.chunckList.drop i))

/-- The loop after the reader was moved to a chunk returns if the source is at the position already, or a packet from
there on reaches it. -/
theorem scan_moved_returns_iff {i : ℕ} {mPos : ℤ} {r : RTPdumpFileReader P}
    (hsound : Sound data { s with mReader := r, mPos := mPos })
    (hunread : r.unread disk = unreadChunks disk (s.mReader.mVideoData.chunckList.drop i)) :
    (∃ s', scan disk pos (handlerFuel disk { s with mReader := r } + 1) { s with mReader := r, mPos := mPos } = some s') ↔
      pos ≤ mPos ∨ s.ReachesFrom pos (unreadChunks disk (s.mReader.mVideoData.chunckList.drop i)) := by
  rcases le_or_gt pos mPos with hle | hgt
  · rw [scan, if_neg (not_lt.mpr hle)]
    simp [hle]
  · refine (scan_returns_iff hsound hgt).trans ?_
    rw [or_iff_right (not_le.mpr hgt), hunread]
    exact Iff.rfl

/-- A seek forwards returns exactly then. -/
theorem seek_forward_returns_iff (hsound : Sound data s) (hpos : pos ≠ 0) (hlt : s.mPos < pos) :
    (∃ code s', s.seek disk pos (fuel + 1) = some (code, s')) ↔ s.ForwardReturns disk pos := by
  have hscan {t : RTPdumpFileSource P} {n : ℕ} :
      (∃ code s', ((t.scan disk pos n).map fun s => (exitSuccess, s)) = some (code, s')) ↔
        ∃ s', t.scan disk pos n = some s' := by
    cases t.scan disk pos n <;> simp
  rw [ForwardReturns]
  split
  case isTrue hhere =>
    -- the position is in the chunk which is open
    have hsought : s.mReader.setSeekPosition disk pos = (0, s.mReader) := by
      rw [RTPdumpFileReader.setSeekPosition, if_pos hhere]
    rw [seek_forward hpos hlt hsought, if_neg (by decide), if_pos rfl, hscan]
    exact scan_returns_iff hsound hlt
  case isFalse hother =>
    cases hfind : s.mReader.findChunk pos with
    | none =>
      have hsought : s.mReader.setSeekPosition disk pos = (-1, s.mReader) := by
        rw [RTPdumpFileReader.setSeekPosition, if_neg hother, hfind]
      rw [seek_forward hpos hlt hsought]
      simp
    | some i =>
      simp only [Option.some.injEq, forall_eq']
      have hmoved (mPos : ℤ) : Sound data
          { s with mReader := (s.mReader.setSeekPosition disk pos).2, mPos := mPos } := hsound.sought pos mPos
      rcases hsought : s.mReader.setSeekPosition disk pos with ⟨start, r⟩
      rw [hsought] at hmoved
      rw [seek_forward hpos hlt hsought]
      cases hopen : (RTPdumpFileReader.openChunk disk { s.mReader with mIndex := i }).1 with
      | false =>
        -- the file of the chunk cannot be opened
        simp only [RTPdumpFileReader.setSeekPosition, if_neg hother, hfind, hopen, Bool.false_eq_true, if_false] at hsought
        obtain ⟨rfl, -⟩ := Prod.mk.inj hsought
        simp
      | true =>
        obtain ⟨-, hunread⟩ :=
          (RTPdumpFileReader.openChunk_spec disk { s.mReader with mIndex := i }).1 hopen
        simp only [RTPdumpFileReader.setSeekPosition, if_neg hother, hfind, hopen, if_true] at hsought
        obtain ⟨hstart, rfl⟩ := Prod.mk.inj hsought
        obtain rfl : s.mReader.foundStart i = start := hstart
        by_cases hlost : s.mReader.foundStart i = -1
        · simp [hlost]
        · rw [if_neg hlost, hscan, scan_moved_returns_iff (hmoved _) hunread]
          exact ⟨fun h _ _ => h, fun h => h rfl hlost⟩

/-- A restarted source is not in front of the beginning. -/
theorem restart_mPos_nonneg (h : s.restart disk = some s') : 0 ≤ s'.mPos := by
  obtain ⟨⟨ok, t⟩, hcall, rfl⟩ := Option.map_eq_some_iff.mp h
  refine playHandler_preserves (Q := fun s => 0 ≤ s.mPos) ?_ ?_ ?_ ?_ ?_ hcall le_rfl
  · intro t ht
    unfold playTransmit
    split_ifs <;> exact ht
  · intro t b r hread ht
    exact ht
  · intro t n b r hread ht
    unfold noteRtp
    split_ifs <;> exact ht
  · intro t client speed hspeed ht
    unfold stamp
    split_ifs <;> exact ht
  · intro t ht
    unfold place
    split
    · exact ht
    · exact Int.natCast_nonneg _

/-- When a seek returns: at position zero and at the position of the source, forwards if the loop does, and
backwards, to a position which is not in front of the beginning, if it does from the source which was
restarted. -/
inductive Returns (disk : P → Option (List UInt8)) (pos : ℤ) : RTPdumpFileSource P → Prop
  | stay {s : RTPdumpFileSource P} (hpos : pos = 0 ∨ pos = s.mPos) : Returns disk pos s
  | forward {s : RTPdumpFileSource P} (hpos : pos ≠ 0) (hlt : s.mPos < pos) (h : s.ForwardReturns disk pos) :
      Returns disk pos s
  | back {s s' : RTPdumpFileSource P} (hpos : 0 < pos) (hlt : pos < s.mPos) (hrestart : s.restart disk = some s')
      (h : Returns disk pos s') : Returns disk pos s

/-- A position in front of the beginning is never reached. -/
theorem not_returns_of_neg (hneg : pos < 0) (hnonneg : 0 ≤ s.mPos) : ¬Returns disk pos s := by
  intro h
  cases h with
  | stay hpos => omega
  | forward hpos hlt h => omega
  | back hpos hlt hrestart h => omega

/-- A seek which returns, meets the condition. -/
theorem returns_of_seek {code : ℤ} (hsound : Sound data s) (h : s.seek disk pos fuel = some (code, s')) :
    Returns disk pos s := by
  induction fuel generalizing s code with
  | zero => cases h
  | succ fuel ih =>
    by_cases hzero : pos = 0
    · exact .stay (Or.inl hzero)
    · rcases lt_trichotomy s.mPos pos with hlt | heq | hgt
      · exact .forward hzero hlt ((seek_forward_returns_iff hsound hzero hlt).mp ⟨code, s', h⟩)
      · exact .stay (Or.inr heq.symm)
      · rw [seek_back hzero hgt] at h
        obtain ⟨t, hrestart, hseek⟩ := Option.bind_eq_some_iff.mp h
        obtain ⟨⟨c, u⟩, hseek', hresult⟩ := Option.map_eq_some_iff.mp hseek
        obtain ⟨-, rfl⟩ := Prod.mk.inj hresult
        have hagain := ih (hsound.restart hrestart) hseek'
        have hnonneg := restart_mPos_nonneg hrestart
        refine .back ?_ hgt hrestart hagain
        -- in front of the beginning the source would be restarted again
        by_contra hneg
        exact not_returns_of_neg (by omega) hnonneg hagain

/-- A seek which meets the condition, returns. -/
theorem seek_of_returns (hsound : Sound data s) (h : Returns disk pos s) :
    ∃ fuel code s', s.seek disk pos fuel = some (code, s') := by
  induction h with
  | @stay s hpos => exact ⟨1, exitSuccess, s, seek_stay hpos⟩
  | forward hpos hlt h => exact ⟨1, (seek_forward_returns_iff hsound hpos hlt).mpr h⟩
  | back hpos hlt hrestart _ ih =>
    obtain ⟨fuel, code, t, hseek⟩ := ih (hsound.restart hrestart)
    refine ⟨fuel + 1, exitSuccess, t, ?_⟩
    rw [seek_back hpos.ne' hlt, hrestart, Option.bind_some, hseek, Option.map_some]

/-- If the recording starts with an RTP packet, a source which has seen packets of both tracks restarts there: it is
at position zero, and the other packets are left. -/
theorem restart_spec {p : RDBuffer} {rest : List RDBuffer} (hsound : Sound data s)
    (hunread : (s.mReader.resetReader disk).unread disk = p :: rest) (hrtp : p.plen ≠ 0)
    (hspeed : s.speedDivisor ≠ none) (haudio : s.aR = true) (hvideo : s.vR = true) :
    ∃ s', s.restart disk = some s' ∧ s'.mPos = 0 ∧ s'.mFirst = p.time ∧ s'.mReader.unread disk = rest := by
  have hrewound : Sound data (s.rewound disk) := hsound.rewound
  have hreading : (s.rewound disk).mReader.Reading := by
    rcases hrewound.reader with hclosed | hreading
    · have hempty : (s.rewound disk).mReader.unread disk = [] := by rw [RTPdumpFileReader.unread, hclosed]
      cases hempty.symm.trans hunread
    · exact hreading
  obtain ⟨r', hcall, hlength, -, hrest, -⟩ :=
    (RTPdumpFileReader.readNextPacket_spec disk (s.rewound disk).buffer hreading).2 p rest hunread
  obtain ⟨speed, hspeed⟩ := Option.ne_none_iff_exists'.mp hspeed
  obtain ⟨-, -, hreader, hfirst, -, hpos, -⟩ := placed_spec .init speed (hrewound.hold hcall)
  have hown : (s.rewound disk).firstOffset p = p.time := if_pos (by decide : (-1 : ℤ) < 0)
  have hzero : relative p.time p = 0 := by simp [relative]
  rw [hown] at hfirst hpos
  have hplaced := playHandler_eq_placed (s := s.rewound disk) ((s.rewound disk).mReader.unread disk).length
    (by decide : Client.init ≠ .play) (by decide : uint32Max ≠ 0) hcall hlength fun _ => ⟨hrtp, haudio, hvideo⟩
  have hdivides : (s.rewound disk).speedDivisor = some speed := hspeed
  refine ⟨(placed disk (s.rewound disk) .init p r' speed).2, ?_, hpos.trans hzero, hfirst, by rw [hreader, hrest]⟩
  rw [restart, handlerFuel, hplaced, hdivides]
  rfl

/-- In such a recording a seek backwards is a seek forwards from the beginning. -/
theorem returns_back_iff {p : RDBuffer} {rest : List RDBuffer} (hsound : Sound data s)
    (hunread : (s.mReader.resetReader disk).unread disk = p :: rest) (hrtp : p.plen ≠ 0)
    (hspeed : s.speedDivisor ≠ none) (haudio : s.aR = true) (hvideo : s.vR = true) (hpos : 0 < pos)
    (hlt : pos < s.mPos) : Returns disk pos s ↔ ∃ s', s.restart disk = some s' ∧ s'.mPos = 0 ∧
      s'.mReader.unread disk = rest ∧ s'.ForwardReturns disk pos := by
  obtain ⟨s', hrestart, hzero, -, hrest⟩ := restart_spec hsound hunread hrtp hspeed haudio hvideo
  constructor
  · intro h
    refine ⟨s', hrestart, hzero, hrest, ?_⟩
    cases h with
    | stay hstay => omega
    | forward _ hbefore => omega
    | back _ _ hagain h =>
      obtain rfl := Option.some.inj (hrestart.symm.trans hagain)
      cases h with
      | stay hstay => omega
      | forward _ _ h => exact h
      | back _ hbehind => omega
  · rintro ⟨t, hrestart', hzero', -, h⟩
    exact .back hpos hlt hrestart' (.forward hpos.ne' (hzero'.symm ▸ hpos) h)

end RTPdumpFileSource

namespace SeekableRecording

/-- Two chunks of two seconds, each with a packet at its beginning and one after a second. -/
def twoChunks : VideoChunkT Unit where
  chunckList := [{ path := (), duration := 2000, position := 0 }, { path := (), duration := 2000, position := 2000 }]
  total_le := by decide

/-- The first packet is in the buffer, and no packet which is left reaches the number 1500. -/
theorem new_twoChunks : (RTPdumpFileSource.new twoPackets.disk twoChunks false 0).map
    (fun s => (s.mPos, s.mFirst, s.mReader.inChunk 1500 s.mReader.mIndex,
      (s.mReader.unread twoPackets.disk).map (relative s.mFirst))) = some (0, 0, true, [100, 0, 100]) := by
  decide +kernel

end SeekableRecording

end RecordingAgent.RtspPlay
