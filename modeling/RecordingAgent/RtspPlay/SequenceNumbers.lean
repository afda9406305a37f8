import RecordingAgent.RtspPlay.Replay

/-!
# Sequence numbers of replayed packets

The counter of a track goes on with each packet the handler reads, and starts anew from the packet when it is
zero. The numbers which are sent follow one another as long as the counter goes on with RTP packets only.
-/

namespace RecordingAgent.RtspPlay

open Foundation

/-- What the handler reads as the sequence number of a packet. -/
def rawSeq (packet : List UInt8) : ℕ := leValue ((packet.drop 2).take 2)

/-- The counter of the track goes on by one with an RTP packet, and stays with an RTCP packet. -/
def CountsOn (t : TrackState) (p : RDBuffer) : Prop :=
  if p.plen = 0 then t.seqOffset = 0 ∧ rawSeq p.data = 0 else t.seqOffset ≠ 0 ∨ rawSeq p.data = 1

instance (t : TrackState) (p : RDBuffer) : Decidable (CountsOn t p) := by
  unfold CountsOn
  infer_instance

theorem rawSeq_lt (packet : List UInt8) : rawSeq packet < 2 ^ 16 := by
  have hlt := leValue_lt ((packet.drop 2).take 2)
  have hlength : ((packet.drop 2).take 2).length ≤ 2 := List.length_take_le _ _
  calc rawSeq packet < 256 ^ ((packet.drop 2).take 2).length := hlt
    _ ≤ 256 ^ 2 := Nat.pow_le_pow_right (by decide) hlength

/-- The counter after a packet was stamped for a call of `Play`. -/
theorem stampPacket_seqOffset (speed : ℕ) (t : TrackState) (data : List UInt8) :
    (stampPacket .play speed t data).1.seqOffset =
      if t.seqOffset = 0 then rawSeq data else (t.seqOffset + 1) % 2 ^ 32 := rfl

/-- That is when it counts on. -/
theorem countsOn_iff (speed : ℕ) (t : TrackState) (p : RDBuffer) : CountsOn t p ↔
    (stampPacket .play speed t p.data).1.seqOffset % 2 ^ 16 =
      (t.seqOffset + if p.plen = 0 then 0 else 1) % 2 ^ 16 := by
  have hlt := rawSeq_lt p.data
  rw [CountsOn, stampPacket_seqOffset]
  by_cases hzero : t.seqOffset = 0
  · rw [if_pos hzero, hzero]
    split <;> omega
  · rw [if_neg hzero]
    split <;> omega

/-- Each packet of a track carries the number after that of the packet before it. -/
def NoGaps (sent : List SentPacket) : Prop :=
  ∀ track ≤ 1, (RTPdumpFileSource.ofTrack sent track).IsChain fun a b =>
    seqNumber b.packet = (seqNumber a.packet + 1) % 2 ^ 16

namespace RTPdumpFileSource

variable {P : Type} {disk : P → Option (List UInt8)} {data : VideoChunkT P} {s s' : RTPdumpFileSource P}
  {speeds : Set (Option ℚ)}

/-- The counter of a track agrees with the number it has given last. -/
theorem law_seqNumber : Law P speeds CountsOn
    (fun a b => seqNumber b.packet = (seqNumber a.packet + 1) % 2 ^ 16)
    fun t m => seqNumber m.packet = t.seqOffset % 2 ^ 16 where
  fresh s speed t p _ _ hwhole := seqNumber_stampPacket .play speed t hwhole.header
  rtcp speed t p m hrtcp hagrees hcounts := by
    have hstays := (countsOn_iff speed t p).mp hcounts
    rw [if_pos hrtcp, Nat.add_zero] at hstays
    rw [hstays, hagrees]
  rtp s speed t p m _ _ hwhole hrtp hagrees hcounts := by
    have hon := (countsOn_iff speed t p).mp hcounts
    rw [if_neg hrtp] at hon
    rw [seqNumber_stampPacket .play speed t hwhole.header, hon, hagrees, Nat.mod_add_mod]

/-- The packet in the buffer carries the counter of its track. -/
def Numbered (s : RTPdumpFileSource P) : Prop :=
  s.buffer.length ≠ 0 → seqNumber s.buffer.data = (s.trackState s.mTrack).seqOffset % 2 ^ 16

theorem Numbered.ended {b : RDBuffer} {r : RTPdumpFileReader P} (h : Numbered s)
    (hread : RTPdumpFileReader.readNextPacket disk s.mReader s.buffer = some (0, b, r)) :
    Numbered { s with mReader := r, buffer := b } := by
  intro hne
  rcases readNextPacket_ended hread with rfl | hzero
  · exact h hne
  · exact absurd hzero hne

theorem numbered_stamp (h : Intact disk data s) (client : Client) (speed : ℕ) : Numbered (s.stamp client speed) := by
  intro hne
  obtain ⟨htrack, hstate, -, hdata, hlength, -⟩ := stamp_spec s client speed
  rw [hlength] at hne
  rw [hdata, htrack, hstate]
  exact seqNumber_stampPacket client speed _ (h.whole hne).header

theorem Numbered.place (h : Numbered s) : Numbered s.place.2 := by
  have hplaced := placedLike_place s
  intro hne
  rw [hplaced.data_eq, hplaced.trackState_eq, hplaced.mTrack_eq]
  exact h (hplaced.length_eq hne ▸ hne)

/-- The start-up leaves it so. -/
theorem numbered_new {audioTransport : Bool} {uninitialised : ℤ}
    (hall : ∀ p ∈ unreadChunks disk data.chunckList, p.Whole)
    (h : RTPdumpFileSource.new disk data audioTransport uninitialised = some s) : Numbered s := by
  obtain ⟨⟨ok, t⟩, hcall, rfl⟩ := Option.map_eq_some_iff.mp (new_eq disk data audioTransport uninitialised ▸ h)
  have hstarted : Intact disk data t ∧ (Numbered _ → Numbered t) ∧ (ok = true → Numbered t) :=
    prefetch_establishes
      (fun _ _ _ hread hs => ⟨hs.ended hread, fun hnumbered => hnumbered.ended hread⟩)
      (fun _ _ _ _ hread hs => hs.fetch hall hread)
      (fun _ _ _ _ _ speed _ _ hs _ _ => ⟨hs.stamp .init speed, numbered_stamp hs .init speed⟩)
      (fun _ hs => ⟨hs.place, Numbered.place⟩)
      hcall (Intact.initial disk data audioTransport uninitialised)
  exact hstarted.2.1 fun hne => absurd rfl hne

/-- So the packet which is sent first carries the counter of its track. -/
theorem seqNumber_transmitted {audioTransport : Bool} {uninitialised : ℤ}
    (hall : ∀ p ∈ unreadChunks disk data.chunckList, p.Whole)
    (h : RTPdumpFileSource.new disk data audioTransport uninitialised = some s) :
    ∀ m ∈ s.transmitted disk data, seqNumber m.packet = (s.trackState m.track).seqOffset % 2 ^ 16 := by
  intro m hm
  rw [transmitted_eq (intact_new hall h).1] at hm
  split at hm
  next hsends =>
    obtain rfl := List.mem_singleton.mp hm
    exact numbered_new hall h hsends.1
  next => cases hm

/-- In a run in which every packet that is read behind one of its track counts on, there are no gaps. -/
theorem noGaps_of_countsOn {sent : List SentPacket} (hall : ∀ p ∈ unreadChunks disk data.chunckList, p.Whole)
    (hrun : PlayRun disk data speeds CountsOn sent s) : NoGaps sent :=
  hrun.isChain law_seqNumber hall fun _ _ _ => seqNumber_transmitted hall

end RTPdumpFileSource

/-- Two RTP packets, the second of which is numbered behind the first. -/
def twoNumbered : List RDBuffer := [recordOf 12 [0, 5] [0, 0, 0, 0], recordOf 12 [0, 6] [0, 0, 0, 0]]

/-- They are sent with two numbers which follow one another. -/
theorem noGaps_of_countsOn_twoNumbered : ∃ sent s,
    RTPdumpFileSource.PlayRun (diskWith twoNumbered) oneChunk ∅ CountsOn sent s ∧ sent.length = 2 ∧ NoGaps sent := by
  have hruns : (replay twoNumbered CountsOn 2).map (fun result => result.1.length) = some 2 := by decide +kernel
  have hall : ∀ p ∈ unreadChunks (diskWith twoNumbered) oneChunk.chunckList, p.Whole := by decide +kernel
  obtain ⟨⟨sent, s⟩, hreplay, hlength⟩ := Option.map_eq_some_iff.mp hruns
  exact ⟨sent, s, playRun_replay hreplay, hlength,
    RTPdumpFileSource.noGaps_of_countsOn hall (playRun_replay hreplay : RTPdumpFileSource.PlayRun _ _ ∅ _ _ _)⟩

/-- The same packets with an RTCP packet between them. -/
def interleaved : List RDBuffer :=
  [recordOf 12 [0, 5] [0, 0, 0, 0], recordOf 0 [0, 6] [0, 0, 0, 0], recordOf 12 [0, 6] [0, 0, 0, 0]]

/-- They are sent with a gap between their numbers. -/
theorem not_noGaps_interleaved : ∃ sent s, (∀ p ∈ unreadChunks (diskWith interleaved) oneChunk.chunckList, p.Whole) ∧
    RTPdumpFileSource.PlayRun (diskWith interleaved) oneChunk ∅ (fun _ _ => True) sent s ∧ ¬NoGaps sent := by
  have hruns : (replay interleaved (fun _ _ => True) 3).map (fun result =>
      (RTPdumpFileSource.ofTrack result.1 0).map fun m => seqNumber m.packet) = some [0x0500, 0x0502] := by
    decide +kernel
  have hall : ∀ p ∈ unreadChunks (diskWith interleaved) oneChunk.chunckList, p.Whole := by decide +kernel
  obtain ⟨⟨sent, s⟩, hreplay, hnumbers⟩ := Option.map_eq_some_iff.mp hruns
  refine ⟨sent, s, hall, playRun_replay hreplay, fun hgaps => ?_⟩
  have hchain : ((RTPdumpFileSource.ofTrack sent 0).map fun m => seqNumber m.packet).IsChain
      fun a b => b = (a + 1) % 2 ^ 16 := (List.isChain_map _).mpr (hgaps 0 (Nat.zero_le 1))
  rw [hnumbers, List.isChain_pair] at hchain
  exact absurd hchain (by decide)

end RecordingAgent.RtspPlay
