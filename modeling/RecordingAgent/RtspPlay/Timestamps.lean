import Mathlib.Data.Int.ModEq
import RecordingAgent.RtspPlay.Replay

/-!
# Timestamps of replayed packets

The clock of a track goes on by the difference of each packet to the one before it, and starts anew from the
packet when it is zero. What is sent keeps the spacing of what was recorded as long as the distance of the clock
to the packet behind it stays the same.
-/

namespace RecordingAgent.RtspPlay

open Foundation

/-- What the handler reads as the timestamp of a packet. -/
def rawTs (packet : List UInt8) : ℕ := leValue ((packet.drop 4).take 4)

/-- The clock of the track goes on by the difference of the packet to the reference. -/
def KeepsDistance (t : TrackState) (p : RDBuffer) : Prop :=
  if t.wclockOffset = 0 then (rawTs p.data + ntohl t.wclockRef) % 2 ^ 32 = ntohl (rawTs p.data)
  else t.wclockRef ≠ 0 ∨ rawTs p.data = 0

instance (t : TrackState) (p : RDBuffer) : Decidable (KeepsDistance t p) := by
  unfold KeepsDistance
  infer_instance

theorem ntohl_lt (x : ℕ) : ntohl x < 2 ^ 32 := by
  have hlt := beValue_lt (leBytes 4 x)
  rw [leBytes_length] at hlt
  exact hlt.trans_eq (by norm_num)

theorem ntohl_ntohl (x : ℕ) : ntohl (ntohl x) = x % 2 ^ 32 := by
  rw [ntohl, ntohl, beValue_leBytes_beValue]
  norm_num

theorem rawTs_lt (packet : List UInt8) : rawTs packet < 2 ^ 32 := by
  have hlt := leValue_lt ((packet.drop 4).take 4)
  have hlength : ((packet.drop 4).take 4).length ≤ 4 := List.length_take_le _ _
  calc rawTs packet < 256 ^ ((packet.drop 4).take 4).length := hlt
    _ ≤ 256 ^ 4 := Nat.pow_le_pow_right (by decide) hlength

/-- The timestamp of a packet is what the handler reads, exchanged. -/
theorem timestamp_eq_ntohl {packet : List UInt8} (h : 8 ≤ packet.length) :
    timestamp packet = ntohl (rawTs packet) := by
  have hlength : ((packet.drop 4).take 4).length = 4 := by
    rw [List.length_take, List.length_drop]
    omega
  have hexchange := beValue_eq_exchange ((packet.drop 4).take 4)
  rw [hlength] at hexchange
  exact hexchange

theorem ntohl_eq_zero_iff {x : ℕ} (h : x < 2 ^ 32) : ntohl x = 0 ↔ x = 0 := by
  constructor
  · intro hzero
    have hback := ntohl_ntohl x
    rw [hzero, Nat.mod_eq_of_lt h] at hback
    exact hback.symm.trans (by decide)
  · rintro rfl
    decide

/-- The clock after a packet was stamped for a call of `Play`. -/
theorem stampPacket_wclockOffset (speed : ℕ) (t : TrackState) (data : List UInt8) :
    (stampPacket .play speed t data).1.wclockOffset =
      if t.wclockOffset = 0 then rawTs data
      else (t.wclockOffset + (ntohl (rawTs data) + 2 ^ 32 -
        ntohl (if t.wclockRef = 0 then rawTs data else t.wclockRef))) % 2 ^ 32 := by
  simp only [stampPacket, if_true, rawTs]

/-- The reference is then the packet. -/
theorem stampPacket_wclockRef (client : Client) (speed : ℕ) (t : TrackState) (data : List UInt8) :
    (stampPacket client speed t data).1.wclockRef = rawTs data := rfl

/-- That is when the distance of the clock to the reference stays the same. -/
theorem keepsDistance_iff (speed : ℕ) (t : TrackState) (p : RDBuffer) : KeepsDistance t p ↔
    ((stampPacket .play speed t p.data).1.wclockOffset : ℤ) - ntohl (rawTs p.data) ≡
      t.wclockOffset - ntohl t.wclockRef [ZMOD 2 ^ 32] := by
  have hts := ntohl_lt (rawTs p.data)
  have href := ntohl_lt t.wclockRef
  rw [KeepsDistance, stampPacket_wclockOffset]
  by_cases hzero : t.wclockOffset = 0
  · rw [if_pos hzero, if_pos hzero, hzero, Int.ModEq]
    omega
  · rw [if_neg hzero, if_neg hzero, Int.ModEq]
    by_cases hfresh : t.wclockRef = 0
    · have hnull : ntohl 0 = 0 := by decide
      have hraw := ntohl_eq_zero_iff (rawTs_lt p.data)
      rw [if_pos hfresh, hfresh, hnull, ← hraw]
      omega
    · rw [if_neg hfresh]
      omega

/-- The timestamps of a packet and the next one of its track are as far apart as those which were recorded. -/
def Spaced (a b : SentPacket) : Prop :=
  ∃ p q, a.recorded = some p ∧ b.recorded = some q ∧
    (timestamp b.packet : ℤ) - timestamp a.packet ≡ timestamp q.data - timestamp p.data [ZMOD 2 ^ 32]

/-- So it is for all packets. -/
def KeepsSpacing (sent : List SentPacket) : Prop :=
  ∀ track ≤ 1, (RTPdumpFileSource.ofTrack sent track).IsChain Spaced

/-- The distance of the clock to the reference is that between a packet which was sent and the recorded one. -/
def AtDistance (t : TrackState) (m : SentPacket) : Prop :=
  ∃ p, m.recorded = some p ∧
    (t.wclockOffset : ℤ) - ntohl t.wclockRef ≡ timestamp m.packet - timestamp p.data [ZMOD 2 ^ 32]

/-- It is so for a packet which was just stamped. -/
theorem atDistance_stampPacket (client : Client) (t : TrackState) (track : ℕ) {p : RDBuffer} (h : p.Whole) :
    AtDistance (stampPacket client 1 t p.data).1 ⟨track, (stampPacket client 1 t p.data).2, some p⟩ := by
  refine ⟨p, rfl, ?_⟩
  rw [timestamp_stampPacket client 1 t h.header, timestamp_eq_ntohl h.header, stampPacket_wclockRef, Nat.div_one,
    Int.ModEq]
  omega

namespace RTPdumpFileSource

variable {P : Type} {disk : P → Option (List UInt8)} {data : VideoChunkT P} {s s' : RTPdumpFileSource P}

theorem speedDivisor_one {speed : ℕ} (hone : s.mSpeed = some 1) (h : s.speedDivisor = some speed) : speed = 1 := by
  have hdivisor : s.speedDivisor = some 1 := by
    rw [speedDivisor, hone]
    norm_num
  exact Option.some.inj (h.symm.trans hdivisor)

/-- The clock of a track keeps its distance. -/
theorem law_timestamp : Law P {some 1} KeepsDistance Spaced AtDistance where
  fresh s speed t p hspeed hdivisor hwhole := by
    obtain rfl := speedDivisor_one (by simpa using hspeed) hdivisor
    exact atDistance_stampPacket .play t p.track hwhole
  rtcp speed t p m _ hagrees hkeeps := by
    obtain ⟨q, hrecorded, hdistance⟩ := hagrees
    exact ⟨q, hrecorded, ((keepsDistance_iff speed t p).mp hkeeps).trans hdistance⟩
  rtp s speed t p m hspeed hdivisor hwhole _ hagrees hkeeps := by
    obtain rfl := speedDivisor_one (by simpa using hspeed) hdivisor
    obtain ⟨q, hrecorded, hdistance⟩ := hagrees
    obtain ⟨p', hp, hstamped⟩ := atDistance_stampPacket .play t p.track hwhole
    obtain rfl : p = p' := Option.some.inj hp
    rw [stampPacket_wclockRef] at hstamped
    have hkept := ((keepsDistance_iff 1 t p).mp hkeeps).trans hdistance
    refine ⟨q, p, hrecorded, rfl, ?_⟩
    -- both packets are sent as far from what was recorded as the clock is from the reference
    have hsame := hstamped.symm.trans hkept
    rw [Int.ModEq] at hsame ⊢
    omega

/-- The clock of the track is at the distance of the packet in the buffer from the recorded one. -/
def Clocked (disk : P → Option (List UInt8)) (data : VideoChunkT P) (s : RTPdumpFileSource P) : Prop :=
  s.buffer.length ≠ 0 → AtDistance (s.trackState s.mTrack) ⟨s.mTrack, s.buffer.data, s.heldPacket disk data⟩

theorem Clocked.ended {b : RDBuffer} {r : RTPdumpFileReader P} (h : Clocked disk data s)
    (hread : RTPdumpFileReader.readNextPacket disk s.mReader s.buffer = some (0, b, r)) :
    Clocked disk data { s with mReader := r, buffer := b } := by
  intro hne
  rcases readNextPacket_ended hread with rfl | hzero
  · exact h hne
  · exact absurd hzero hne

theorem Clocked.place (h : Clocked disk data s) : Clocked disk data s.place.2 := by
  have hplaced := placedLike_place s
  intro hne
  rw [hplaced.data_eq, hplaced.trackState_eq, hplaced.mTrack_eq, heldPacket, hplaced.held_eq]
  exact h (hplaced.length_eq hne ▸ hne)

/-- It is so after a packet which was read is stamped. -/
theorem clocked_stamp {n : ℕ} {b : RDBuffer} {r : RTPdumpFileReader P} (h : Intact disk data s)
    (hall : ∀ p ∈ unreadChunks disk data.chunckList, p.Whole) (client : Client)
    (hread : RTPdumpFileReader.readNextPacket disk s.mReader s.buffer = some (n + 1, b, r)) :
    Clocked disk data ((s.hold disk b r).noteRtp.stamp client 1) := by
  intro hne
  obtain ⟨-, -, -, hbuffer⟩ := noteRtp_keeps (s.hold disk b r)
  obtain ⟨htrack, hstate, -, hdata, hlength, -⟩ := stamp_spec (s.hold disk b r).noteRtp client 1
  have hheld : ((s.hold disk b r).noteRtp.stamp client 1).held = some (r.unread disk).length :=
    (sameCourse_stamp _ client 1).held_eq.trans (sameCourse_noteRtp _).held_eq
  rw [hlength] at hne
  have hwhole := (h.fetch hall hread).whole hne
  rw [hdata, htrack, hstate, heldPacket, hheld, Option.bind_some, heldPacket_hold h hread, hbuffer]
  rw [hbuffer] at hwhole
  exact atDistance_stampPacket client _ _ hwhole

/-- The source in the start-up of a recording which begins with an RTP packet: the pointer to an RTP header is set,
or the first packet is still to be read. -/
structure StartsWithRtp (disk : P → Option (List UInt8)) (data : VideoChunkT P) (s : RTPdumpFileSource P) : Prop where
  intact : Intact disk data s
  speed : s.mSpeed = some 1
  rtp : s.r = true ∨ ∀ p ∈ (s.mReader.unread disk).head?, p.plen ≠ 0

theorem StartsWithRtp.r_fetch {n : ℕ} {b : RDBuffer} {r : RTPdumpFileReader P} (h : StartsWithRtp disk data s)
    (hread : RTPdumpFileReader.readNextPacket disk s.mReader s.buffer = some (n + 1, b, r)) :
    (s.hold disk b r).noteRtp.r = true := by
  unfold noteRtp
  split
  next => rfl
  next hrtcp =>
    refine h.rtp.resolve_right fun hfirst => hrtcp (hfirst b ?_)
    rw [(unread_eq_cons h.intact.sound.reader hread).2]
    rfl

/-- The start-up stamps each packet once, so the clock is at the distance of the packet in the buffer. -/
theorem clocked_new {audioTransport : Bool} {uninitialised : ℤ}
    (hall : ∀ p ∈ unreadChunks disk data.chunckList, p.Whole)
    (hfirst : ∀ p ∈ (unreadChunks disk data.chunckList).head?, p.plen ≠ 0)
    (h : RTPdumpFileSource.new disk data audioTransport uninitialised = some s) : Clocked disk data s := by
  obtain ⟨⟨ok, t⟩, hcall, rfl⟩ := Option.map_eq_some_iff.mp (new_eq disk data audioTransport uninitialised ▸ h)
  have hbegin : StartsWithRtp disk data (initial disk data audioTransport uninitialised) := by
    refine ⟨Intact.initial disk data audioTransport uninitialised, rfl, Or.inr ?_⟩
    rcases RTPdumpFileReader.new_spec disk data with ⟨hclosed, -⟩ | ⟨-, hunread⟩
    · have hnil : (RTPdumpFileReader.new disk data).unread disk = [] := by rw [RTPdumpFileReader.unread, hclosed]
      intro p hp
      rw [initial, hnil] at hp
      cases hp
    · rw [initial, hunread]
      exact hfirst
  have hstarted : StartsWithRtp disk data t ∧
      (Clocked disk data (initial disk data audioTransport uninitialised) → Clocked disk data t) ∧
        (ok = true → Clocked disk data t) := by
    refine prefetch_establishes ?_ ?_ ?_ ?_ hcall hbegin
    · intro s b r hread hs
      obtain ⟨-, hnil⟩ := (RTPdumpFileReader.unread_of_readNextPacket hs.intact.sound.reader hread).1 rfl
      refine ⟨⟨hs.intact.ended hread, hs.speed, Or.inr fun p hp => ?_⟩, fun hclocked => hclocked.ended hread⟩
      rw [hnil] at hp
      cases hp
    · intro s n b r hread hs
      exact ⟨hs.intact.fetch hall hread, (noteRtp_keeps _).2.1.trans hs.speed, Or.inl (hs.r_fetch hread)⟩
    · rintro t n b r s speed hread ht hs hsame hdivisor
      have hfresh : s = (t.hold disk b r).noteRtp :=
        hsame.resolve_right (by rw [ht.r_fetch hread]; exact Bool.noConfusion)
      obtain rfl := speedDivisor_one hs.speed hdivisor
      refine ⟨⟨hs.intact.stamp .init 1, (sameCourse_stamp s .init 1).mSpeed_eq.trans hs.speed, Or.inl ?_⟩, ?_⟩
      · rw [(stamp_keeps s .init 1).1, hfresh]
        exact ht.r_fetch hread
      · rw [hfresh]
        exact clocked_stamp ht.intact hall .init hread
    · intro s hs
      have hplaced := placedLike_place s
      refine ⟨⟨hs.intact.place, hplaced.mSpeed_eq.trans hs.speed, ?_⟩, Clocked.place⟩
      rw [hplaced.r_eq, hplaced.mReader_eq]
      exact hs.rtp
  exact hstarted.2.1 fun hne => absurd rfl hne

/-- At speed one, in a run of a recording which begins with an RTP packet and in which the clock keeps its distance
to every packet that is read behind one of its track, the packets keep their spacing. -/
theorem keepsSpacing_of_keepsDistance {sent : List SentPacket}
    (hall : ∀ p ∈ unreadChunks disk data.chunckList, p.Whole)
    (hfirst : ∀ p ∈ (unreadChunks disk data.chunckList).head?, p.plen ≠ 0)
    (hrun : PlayRun disk data {some 1} KeepsDistance sent s) : KeepsSpacing sent := by
  refine hrun.isChain law_timestamp hall fun audioTransport uninitialised s hnew m hm => ?_
  rw [transmitted_eq (intact_new hall hnew).1] at hm
  split at hm
  next hsends =>
    obtain rfl := List.mem_singleton.mp hm
    exact clocked_new hall hfirst hnew hsends.1
  next => cases hm

end RTPdumpFileSource

/-- Two RTP packets a clock tick apart. -/
def twoTimed : List RDBuffer := [recordOf 12 [0, 5] [0, 0, 0, 7], recordOf 12 [0, 6] [0, 0, 0, 8]]

/-- They are sent a clock tick apart. -/
theorem keepsSpacing_of_keepsDistance_twoTimed : ∃ sent s,
    RTPdumpFileSource.PlayRun (diskWith twoTimed) oneChunk {some 1} KeepsDistance sent s ∧ sent.length = 2 ∧
      KeepsSpacing sent := by
  have hruns : (replay twoTimed KeepsDistance 2).map (fun result => result.1.length) = some 2 := by decide +kernel
  have hall : ∀ p ∈ unreadChunks (diskWith twoTimed) oneChunk.chunckList, p.Whole := by decide +kernel
  have hfirst : ∀ p ∈ (unreadChunks (diskWith twoTimed) oneChunk.chunckList).head?, p.plen ≠ 0 := by decide +kernel
  obtain ⟨⟨sent, s⟩, hreplay, hlength⟩ := Option.map_eq_some_iff.mp hruns
  exact ⟨sent, s, playRun_replay hreplay, hlength,
    RTPdumpFileSource.keepsSpacing_of_keepsDistance hall hfirst (playRun_replay hreplay)⟩

/-- The timestamps with which a packet was sent and recorded. -/
def SentPacket.times (m : SentPacket) : ℕ × Option ℕ :=
  (timestamp m.packet, m.recorded.map fun p => timestamp p.data)

/-- The spacing is told by these. -/
theorem Spaced.times {a b : SentPacket} (h : Spaced a b) : ∃ x y : ℕ, a.times.2 = some x ∧ b.times.2 = some y ∧
    (b.times.1 : ℤ) - a.times.1 ≡ y - x [ZMOD 2 ^ 32] := by
  obtain ⟨p, q, ha, hb, hdiff⟩ := h
  exact ⟨timestamp p.data, timestamp q.data, by rw [SentPacket.times, ha]; rfl, by rw [SentPacket.times, hb]; rfl, hdiff⟩

/-- Two RTP packets of which the first one has the timestamp zero. -/
def fromZero : List RDBuffer := [recordOf 12 [0, 5] [0, 0, 0, 0], recordOf 12 [0, 6] [0, 0, 0, 1]]

/-- The second one is sent with the bytes of its timestamp exchanged. -/
theorem not_keepsSpacing_fromZero : ∃ sent s,
    (∀ p ∈ unreadChunks (diskWith fromZero) oneChunk.chunckList, p.Whole) ∧
      RTPdumpFileSource.PlayRun (diskWith fromZero) oneChunk {some 1} (fun _ _ => True) sent s ∧
        ¬KeepsSpacing sent := by
  have hruns : (replay fromZero (fun _ _ => True) 2).map (fun result =>
      (RTPdumpFileSource.ofTrack result.1 0).map SentPacket.times) = some [(0, some 0), (0x01000000, some 1)] := by
    decide +kernel
  have hall : ∀ p ∈ unreadChunks (diskWith fromZero) oneChunk.chunckList, p.Whole := by decide +kernel
  obtain ⟨⟨sent, s⟩, hreplay, htimes⟩ := Option.map_eq_some_iff.mp hruns
  refine ⟨sent, s, hall, playRun_replay hreplay, fun hspacing => ?_⟩
  have hchain : ((RTPdumpFileSource.ofTrack sent 0).map SentPacket.times).IsChain fun a b =>
      ∃ x y : ℕ, a.2 = some x ∧ b.2 = some y ∧ (b.1 : ℤ) - a.1 ≡ y - x [ZMOD 2 ^ 32] :=
    List.isChain_map_of_isChain SentPacket.times (fun _ _ h => h.times) (hspacing 0 (Nat.zero_le 1))
  rw [htimes, List.isChain_pair] at hchain
  obtain ⟨x, y, hx, hy, hdiff⟩ := hchain
  obtain rfl : 0 = x := Option.some.inj hx
  obtain rfl : 1 = y := Option.some.inj hy
  exact absurd hdiff (by decide)

end RecordingAgent.RtspPlay
