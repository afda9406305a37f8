import Mathlib.Data.List.Chain
import RecordingAgent.RtspPlay.Stamping

/-!
# Runs of the player

A run starts with the prefetch and goes on with calls of `Play`, each of which sends the packet in the buffer and
reads the next one into it. What was sent is kept with the packets of the recording it was made of, and a packet
which waits in the buffer counts as put up for sending.
-/

namespace RecordingAgent.RtspPlay

open Foundation

/-- A packet which was sent: its track, its bytes, and the packet of the recording which was in the buffer. -/
structure SentPacket where
  track : ℕ
  packet : List UInt8
  recorded : Option RDBuffer
  deriving DecidableEq

namespace RTPdumpFileSource

variable {P : Type} {disk : P → Option (List UInt8)} {data : VideoChunkT P} {s s' : RTPdumpFileSource P}
  {client : Client} {fuel : ℕ} {speeds : Set (Option ℚ)}

/-- The members which are kept for a track. -/
def trackState (s : RTPdumpFileSource P) (track : ℕ) : TrackState := if track = 0 then s.video else s.audio

/-- The packet of the recording which is in the buffer. -/
def heldPacket (disk : P → Option (List UInt8)) (data : VideoChunkT P) (s : RTPdumpFileSource P) : Option RDBuffer :=
  s.held.bind fun behind => (unreadChunks disk data.chunckList).reverse[behind]?

/-- What the next call of `Play` sends. -/
def transmitted (disk : P → Option (List UInt8)) (data : VideoChunkT P) (s : RTPdumpFileSource P) :
    List SentPacket :=
  s.playTransmit.1.toList.map fun sent => ⟨sent.1, sent.2, s.heldPacket disk data⟩

/-- What was sent so far, and what the next call sends. -/
def putUp (disk : P → Option (List UInt8)) (data : VideoChunkT P) (sent : List SentPacket)
    (s : RTPdumpFileSource P) : List SentPacket :=
  sent ++ s.transmitted disk data

/-- The next packet of the recording is one which a track may count, if the track has put one up. -/
def Meets (disk : P → Option (List UInt8)) (data : VideoChunkT P) (Counts : TrackState → RDBuffer → Prop)
    (sent : List SentPacket) (s : RTPdumpFileSource P) : Prop :=
  ∀ p ∈ (s.mReader.unread disk).head?, (∃ m ∈ s.putUp disk data sent, m.track = p.track) →
    Counts (s.trackState p.track) p

instance (Counts : TrackState → RDBuffer → Prop) [∀ t p, Decidable (Counts t p)] (sent : List SentPacket)
    (s : RTPdumpFileSource P) : Decidable (s.Meets disk data Counts sent) :=
  inferInstanceAs (Decidable (∀ p ∈ (s.mReader.unread disk).head?,
    (∃ m ∈ s.putUp disk data sent, m.track = p.track) → Counts (s.trackState p.track) p))

/-- A run of the player in which these speeds are set, every call of `Play` meets the condition, and these
packets were sent. -/
inductive PlayRun (disk : P → Option (List UInt8)) (data : VideoChunkT P) (speeds : Set (Option ℚ))
    (Counts : TrackState → RDBuffer → Prop) : List SentPacket → RTPdumpFileSource P → Prop
  | new {audioTransport : Bool} {uninitialised : ℤ} {s : RTPdumpFileSource P}
      (h : RTPdumpFileSource.new disk data audioTransport uninitialised = some s) :
      PlayRun disk data speeds Counts [] s
  | play {sent : List SentPacket} {s s' : RTPdumpFileSource P} {ok : Bool} {packet : Option (ℕ × List UInt8)}
      (hrun : PlayRun disk data speeds Counts sent s) (hmeets : s.Meets disk data Counts sent)
      (h : s.play disk = some (ok, packet, s')) :
      PlayRun disk data speeds Counts
        (sent ++ packet.toList.map fun p => ⟨p.1, p.2, s.heldPacket disk data⟩) s'
  | setSpeed {sent : List SentPacket} {s : RTPdumpFileSource P} {speed : Option ℚ} (hspeed : speed ∈ speeds)
      (hrun : PlayRun disk data speeds Counts sent s) : PlayRun disk data speeds Counts sent (s.setSpeed speed)

/-- What stamping does to the tracks and to the packet. -/
theorem stamp_spec (s : RTPdumpFileSource P) (client : Client) (speed : ℕ) :
    (s.stamp client speed).mTrack = s.buffer.track ∧
      (s.stamp client speed).trackState s.buffer.track =
        (stampPacket client speed (s.trackState s.buffer.track) s.buffer.data).1 ∧
      (∀ track ≤ 1, track ≠ s.buffer.track → (s.stamp client speed).trackState track = s.trackState track) ∧
      (s.stamp client speed).buffer.data =
        (stampPacket client speed (s.trackState s.buffer.track) s.buffer.data).2 ∧
      (s.stamp client speed).buffer.length = s.buffer.length ∧
      (s.stamp client speed).buffer.plen = s.buffer.plen := by
  unfold stamp RDBuffer.track
  split
  · refine ⟨rfl, rfl, fun track hle hne => ?_, rfl, rfl, rfl⟩
    obtain rfl : track = 0 := by omega
    rfl
  · refine ⟨rfl, rfl, fun track hle hne => ?_, rfl, rfl, rfl⟩
    obtain rfl : track = 1 := by omega
    rfl

/-- What placing leaves alone, unless it takes the packet out of the buffer. -/
structure PlacedLike (s s' : RTPdumpFileSource P) : Prop where
  mReader_eq : s'.mReader = s.mReader
  mTrack_eq : s'.mTrack = s.mTrack
  trackState_eq : ∀ track, s'.trackState track = s.trackState track
  data_eq : s'.buffer.data = s.buffer.data
  plen_eq : s'.buffer.plen = s.buffer.plen
  held_eq : s'.held = s.held
  r_eq : s'.r = s.r
  mSpeed_eq : s'.mSpeed = s.mSpeed
  audioTransport_eq : s'.audioTransport = s.audioTransport
  length_eq : s'.buffer.length ≠ 0 → s'.buffer.length = s.buffer.length

theorem placedLike_place (s : RTPdumpFileSource P) : PlacedLike s s.place.2 := by
  unfold place
  split
  · exact ⟨rfl, rfl, fun _ => rfl, rfl, rfl, rfl, rfl, rfl, rfl, fun h => absurd rfl h⟩
  · exact ⟨rfl, rfl, fun _ => rfl, rfl, rfl, rfl, rfl, rfl, rfl, fun _ => rfl⟩

/-- A call which delivers a packet takes it from those which are left. -/
theorem unread_eq_cons {r r' : RTPdumpFileReader P} {b b' : RDBuffer} {n : ℕ}
    (hreader : r.mActiveFile = none ∨ r.Reading)
    (h : RTPdumpFileReader.readNextPacket disk r b = some (n + 1, b', r')) :
    b'.length = n + 1 ∧ r.unread disk = b' :: r'.unread disk := by
  rcases hreader with hclosed | hreading
  · rw [RTPdumpFileReader.readNextPacket_closed hclosed] at h
    cases h
  · obtain ⟨hends, hdelivers⟩ := RTPdumpFileReader.readNextPacket_spec disk b hreading
    cases hunread : r.unread disk with
    | nil =>
      obtain ⟨_, _, hcall, -⟩ := hends hunread
      rw [hcall] at h
      cases h
    | cons p rest =>
      obtain ⟨_, hcall, -, -, hrest, -⟩ := hdelivers p rest hunread
      rw [hcall] at h
      obtain ⟨hcount, hback⟩ := Prod.mk.inj (Option.some.inj h)
      obtain ⟨rfl, rfl⟩ := Prod.mk.inj hback
      exact ⟨hcount, by rw [hrest]⟩

/-- The packet in the buffer is there as a whole, if there is one. -/
def BufferWhole (b : RDBuffer) : Prop := b.length ≠ 0 → b.Whole

/-- A call which returns zero leaves no packet in the buffer, or the buffer as it was. -/
theorem readNextPacket_ended {r r' : RTPdumpFileReader P} {b b' : RDBuffer}
    (h : RTPdumpFileReader.readNextPacket disk r b = some (0, b', r')) : b' = b ∨ b'.length = 0 := by
  have hread {f : ReadStream} {c : RDBuffer} (hzero : (rdRead f c).1 = 0) :
      (rdRead f c).2.1 = c ∨ (rdRead f c).2.1.length = 0 := by
    simp only [rdRead] at hzero ⊢
    split
    · exact Or.inl rfl
    next hfull =>
      rw [if_neg hfull] at hzero
      exact Or.inr hzero
  fun_induction RTPdumpFileReader.readNextPacket disk r b with
  | case1 => cases h
  | case2 r b f hopen n c f' hrd hne =>
    obtain ⟨hzero, -⟩ := Prod.mk.inj (Option.some.inj h)
    exact absurd hzero hne
  | case3 r b f hopen n c f' hrd hzero hindex hnext ih =>
    have hcases := hread (f := f) (c := b) (by simpa [hrd] using hzero)
    rw [hrd] at hcases
    rcases ih h with rfl | hlength
    · exact hcases
    · exact Or.inr hlength
  | case4 r b f hopen n c f' hrd hzero hindex hnext =>
    have hcases := hread (f := f) (c := b) (by simpa [hrd] using hzero)
    rw [hrd] at hcases
    obtain ⟨-, hrest⟩ := Prod.mk.inj (Option.some.inj h)
    obtain ⟨rfl, -⟩ := Prod.mk.inj hrest
    exact hcases
  | case5 r b f hopen n c f' hrd hzero hindex =>
    have hcases := hread (f := f) (c := b) (by simpa [hrd] using hzero)
    rw [hrd] at hcases
    obtain ⟨-, hrest⟩ := Prod.mk.inj (Option.some.inj h)
    obtain ⟨rfl, -⟩ := Prod.mk.inj hrest
    exact hcases

/-- What holds of the source between calls, when the packets of the recording are whole. -/
structure Intact (disk : P → Option (List UInt8)) (data : VideoChunkT P) (s : RTPdumpFileSource P) : Prop where
  sound : Sound data s
  suffix : s.mReader.unread disk <:+ unreadChunks disk data.chunckList
  whole : BufferWhole s.buffer
  track_le : s.mTrack ≤ 1

namespace Intact

theorem initial (disk : P → Option (List UInt8)) (data : VideoChunkT P) (audioTransport : Bool)
    (uninitialised : ℤ) : Intact disk data (initial disk data audioTransport uninitialised) := by
  refine ⟨sound_initial disk data audioTransport uninitialised, ?_, fun h => absurd rfl h, Nat.zero_le 1⟩
  rcases RTPdumpFileReader.new_spec disk data with ⟨hclosed, -⟩ | ⟨-, hunread⟩
  · have hnil : (RTPdumpFileReader.new disk data).unread disk = [] := by rw [RTPdumpFileReader.unread, hclosed]
    exact hnil ▸ List.nil_suffix
  · exact hunread ▸ List.suffix_rfl

theorem playTransmit (h : Intact disk data s) : Intact disk data s.playTransmit.2 ∧
    s.playTransmit.2.buffer.length = 0 := by
  obtain ⟨hsound, hsuffix, hwhole, htrack⟩ := h
  have hsound' := hsound.playTransmit
  unfold RTPdumpFileSource.playTransmit at hsound' ⊢
  rw [if_neg (by omega)] at hsound' ⊢
  split at hsound'
  next hsent =>
    rw [if_pos hsent]
    exact ⟨⟨hsound', hsuffix, fun hne => absurd rfl hne, htrack⟩, rfl⟩
  next hnot =>
    rw [if_neg hnot]
    split at hsound'
    next hrtcp =>
      rw [if_pos hrtcp]
      exact ⟨⟨hsound', hsuffix, fun hne => absurd rfl hne, htrack⟩, rfl⟩
    next hrtp =>
      have hempty : s.buffer.length = 0 := by
        by_contra hne
        exact hnot ⟨hne, hrtp⟩
      rw [if_neg hrtp]
      exact ⟨⟨hsound', hsuffix, hwhole, htrack⟩, hempty⟩

theorem ended {b : RDBuffer} {r : RTPdumpFileReader P} (h : Intact disk data s)
    (hread : RTPdumpFileReader.readNextPacket disk s.mReader s.buffer = some (0, b, r)) :
    Intact disk data { s with mReader := r, buffer := b } := by
  refine ⟨h.sound.read hread, ?_, ?_, h.track_le⟩
  · obtain ⟨-, hnil⟩ := (RTPdumpFileReader.unread_of_readNextPacket h.sound.reader hread).1 rfl
    exact hnil ▸ List.nil_suffix
  · rcases readNextPacket_ended hread with rfl | hzero
    · exact h.whole
    · exact fun hne => absurd hzero hne

theorem fetch {n : ℕ} {b : RDBuffer} {r : RTPdumpFileReader P} (h : Intact disk data s)
    (hall : ∀ p ∈ unreadChunks disk data.chunckList, p.Whole)
    (hread : RTPdumpFileReader.readNextPacket disk s.mReader s.buffer = some (n + 1, b, r)) :
    Intact disk data (s.hold disk b r).noteRtp := by
  obtain ⟨-, hcons⟩ := unread_eq_cons h.sound.reader hread
  have hsuffix := h.suffix
  rw [hcons] at hsuffix
  have hmem : b ∈ unreadChunks disk data.chunckList := hsuffix.subset List.mem_cons_self
  have hnote := (h.sound.hold hread).noteRtp
  have hback : r.unread disk <:+ unreadChunks disk data.chunckList := (List.suffix_cons b _).trans hsuffix
  unfold RTPdumpFileSource.noteRtp at hnote ⊢
  split at hnote
  next hrtp =>
    rw [if_pos hrtp]
    exact ⟨hnote, hback, fun _ => hall b hmem, h.track_le⟩
  next hrtcp =>
    rw [if_neg hrtcp]
    exact ⟨hnote, hback, fun _ => hall b hmem, h.track_le⟩

theorem stamp (h : Intact disk data s) (client : Client) (speed : ℕ) : Intact disk data (s.stamp client speed) := by
  obtain ⟨htrack, -, -, hdata, hlength, -⟩ := stamp_spec s client speed
  refine ⟨h.sound.stamp client speed, ?_, fun hne => ?_, htrack ▸ RDBuffer.track_le _⟩
  · rw [(sameCourse_stamp s client speed).mReader_eq]
    exact h.suffix
  · rw [hlength] at hne
    have hwhole := h.whole hne
    have hlong := length_stampPacket client speed (s.trackState s.buffer.track) hwhole.header
    exact ⟨by rw [hlength, hdata, hlong, hwhole.length_eq], by rw [hdata, hlong]; exact hwhole.header⟩

theorem place (h : Intact disk data s) : Intact disk data s.place.2 := by
  have hplaced := placedLike_place s
  obtain ⟨-, hsound, -⟩ := h.sound.place
  refine ⟨hsound, hplaced.mReader_eq ▸ h.suffix, fun hne => ?_, hplaced.mTrack_eq ▸ h.track_le⟩
  have hlength := hplaced.length_eq hne
  have hwhole := h.whole (hlength ▸ hne)
  exact ⟨by rw [hlength, hplaced.data_eq, hwhole.length_eq], hplaced.data_eq ▸ hwhole.header⟩

end Intact

/-- What stamping establishes on a source which is kept in order, the prefetch leaves behind, with its calls of
the handler by itself: unless it reads nothing, the last thing it does is to stamp and to place. -/
theorem prefetch_establishes {I Q : RTPdumpFileSource P → Prop}
    (hended : ∀ s b r, RTPdumpFileReader.readNextPacket disk s.mReader s.buffer = some (0, b, r) → I s →
      I { s with mReader := r, buffer := b } ∧ (Q s → Q { s with mReader := r, buffer := b }))
    (hfetch : ∀ s n b r, RTPdumpFileReader.readNextPacket disk s.mReader s.buffer = some (n + 1, b, r) →
      I s → I (s.hold disk b r).noteRtp)
    (hstamp : ∀ t n b r s speed, RTPdumpFileReader.readNextPacket disk t.mReader t.buffer = some (n + 1, b, r) →
      I t → I s → (s = (t.hold disk b r).noteRtp ∨ (t.hold disk b r).noteRtp.r = false) →
      s.speedDivisor = some speed → I (s.stamp .init speed) ∧ Q (s.stamp .init speed))
    (hplace : ∀ s, I s → I s.place.2 ∧ (Q s → Q s.place.2)) {ok : Bool}
    (h : playHandler disk fuel s .init = some (ok, s')) (hs : I s) :
    I s' ∧ (Q s → Q s') ∧ (ok = true → Q s') := by
  induction fuel generalizing s s' ok with
  | zero => cases h
  | succ fuel ih =>
    have hagain {u v : RTPdumpFileSource P} {missing : Bool} (hu : I u)
        (hv : prefetch (fun s => (playHandler disk fuel s .init).map Prod.snd) .init missing u = some v) :
        I v ∧ (Q u → Q v) := by
      rcases prefetch_cases hv with hcall | rfl
      · obtain ⟨⟨ok, w⟩, hcall', rfl⟩ := Option.map_eq_some_iff.mp hcall
        obtain ⟨hI, hQ, -⟩ := ih hcall' hu
        exact ⟨hI, hQ⟩
      · exact ⟨hu, id⟩
    have hinit : Client.init ≠ .play := by decide
    rw [playHandler, if_neg hinit] at h
    dsimp only at h
    split at h
    · obtain ⟨rfl, rfl⟩ := Prod.mk.inj (Option.some.inj h)
      exact ⟨hs, id, fun hok => absurd hok Bool.false_ne_true⟩
    · split at h
      · cases h
      · rename_i b r hread
        obtain ⟨rfl, rfl⟩ := Prod.mk.inj (Option.some.inj h)
        obtain ⟨hI, hQ⟩ := hended s b r hread hs
        exact ⟨hI, hQ, fun hok => absurd hok Bool.false_ne_true⟩
      · rename_i n b r hread
        simp only [Option.bind_eq_some_iff, Option.map_eq_some_iff] at h
        obtain ⟨s1, h1, speed, hspeed, s2, h2, s3, h3, hlast⟩ := h
        have hheld := hfetch s n b r hread hs
        obtain ⟨hI1, -⟩ := hagain hheld h1
        -- the packet which was fetched is stamped, unless another one was fetched behind it
        have hsame : s1 = (s.hold disk b r).noteRtp ∨ (s.hold disk b r).noteRtp.r = false := by
          cases hr : (s.hold disk b r).noteRtp.r with
          | false => exact Or.inr rfl
          | true =>
            rw [hr] at h1
            exact Or.inl (Option.some.inj h1).symm
        obtain ⟨hI, hQ⟩ := hstamp s n b r s1 speed hread hs hI1 hsame hspeed
        obtain ⟨hI2, hQ2⟩ := hagain hI h2
        obtain ⟨hI3, hQ3⟩ := hagain hI2 h3
        obtain ⟨hI', hQ'⟩ := hplace s3 hI3
        rw [hlast] at hI' hQ'
        exact ⟨hI', fun _ => hQ' (hQ3 (hQ2 hQ)), fun _ => hQ' (hQ3 (hQ2 hQ))⟩

/-- A call of `Play` sends the packet in the buffer, and either finds that the recording has ended or stamps and
places the next packet. -/
theorem play_cases {ok : Bool} {packet : Option (ℕ × List UInt8)} (hsound : Sound data s)
    (h : s.play disk = some (ok, packet, s')) :
    packet = s.playTransmit.1 ∧
      ((∃ b r, RTPdumpFileReader.readNextPacket disk s.mReader s.playTransmit.2.buffer = some (0, b, r) ∧
        s' = { s.playTransmit.2 with mReader := r, buffer := b }) ∨
      ∃ n b r speed, RTPdumpFileReader.readNextPacket disk s.mReader s.playTransmit.2.buffer = some (n + 1, b, r) ∧
        (s.playTransmit.2.hold disk b r).noteRtp.speedDivisor = some speed ∧
        s' = (placed disk s.playTransmit.2 .play b r speed).2) := by
  obtain ⟨⟨ok', t⟩, hcall, hresult⟩ := Option.map_eq_some_iff.mp h
  obtain ⟨-, hrest⟩ := Prod.mk.inj hresult
  obtain ⟨rfl, rfl⟩ := Prod.mk.inj hrest
  refine ⟨rfl, ?_⟩
  have hend : s.playTransmit.2.mEnd ≠ 0 := by
    rw [hsound.playTransmit.end_eq]
    decide
  have hnone {again : RTPdumpFileSource P → Option (RTPdumpFileSource P)} {missing : Bool}
      {u : RTPdumpFileSource P} : prefetch again .play missing u = some u := by
    apply if_neg
    rintro ⟨hinit, -⟩
    cases hinit
  rw [handlerFuel, playHandler, if_pos rfl, (playTransmit_same s).1] at hcall
  simp only [if_neg hend, hnone, Option.bind_some, Option.map_some] at hcall
  split at hcall
  · cases hcall
  · rename_i b r hread
    obtain ⟨-, rfl⟩ := Prod.mk.inj (Option.some.inj hcall)
    exact Or.inl ⟨b, r, hread, rfl⟩
  · rename_i n b r hread
    obtain ⟨speed, hspeed, hlast⟩ := Option.bind_eq_some_iff.mp hcall
    refine Or.inr ⟨n, b, r, speed, hread, hspeed, ?_⟩
    rw [placed, Option.some.inj hlast]

/-- Sending the packet leaves the tracks, the speed and the transports alone. -/
theorem playTransmit_keeps (s : RTPdumpFileSource P) :
    (∀ track, s.playTransmit.2.trackState track = s.trackState track) ∧
      s.playTransmit.2.mSpeed = s.mSpeed ∧ s.playTransmit.2.audioTransport = s.audioTransport := by
  unfold playTransmit
  split
  · exact ⟨fun _ => rfl, rfl, rfl⟩
  · split
    · exact ⟨fun _ => rfl, rfl, rfl⟩
    · split <;> exact ⟨fun _ => rfl, rfl, rfl⟩

/-- The next call sends the packet in the buffer if it is an RTP packet of a track with a transport. -/
theorem transmitted_eq (h : Intact disk data s) : s.transmitted disk data =
    if s.buffer.length ≠ 0 ∧ s.buffer.plen ≠ 0 ∧ (s.mTrack = 0 ∨ s.audioTransport) then
      [⟨s.mTrack, s.buffer.data, s.heldPacket disk data⟩] else [] := by
  have htrack := h.track_le
  rw [transmitted, playTransmit, if_neg (by omega)]
  by_cases hrtp : s.buffer.length ≠ 0 ∧ s.buffer.plen ≠ 0
  · have hbytes : s.buffer.data.take s.buffer.length = s.buffer.data :=
      List.take_of_length_le (h.whole hrtp.1).length_eq.ge
    rw [if_pos hrtp]
    by_cases hsends : s.mTrack = 0 ∨ s.audioTransport
    · rw [if_pos hsends, if_pos ⟨hrtp.1, hrtp.2, hsends⟩, hbytes]
      rfl
    · rw [if_neg hsends, if_neg fun hall => hsends hall.2.2]
      rfl
  · have hneither : ¬(s.buffer.length ≠ 0 ∧ s.buffer.plen ≠ 0 ∧ (s.mTrack = 0 ∨ s.audioTransport)) :=
      fun h => hrtp ⟨h.1, h.2.1⟩
    rw [if_neg hrtp]
    simp only [if_neg hneither]
    split <;> rfl

/-- The packet which the handler has fetched for a call of `Play`, stamped and placed. -/
structure Replayed (disk : P → Option (List UInt8)) (data : VideoChunkT P) (s s' : RTPdumpFileSource P) (p : RDBuffer)
    (speed : ℕ) : Prop where
  intact : Intact disk data s'
  mSpeed_eq : s'.mSpeed = s.mSpeed
  audioTransport_eq : s'.audioTransport = s.audioTransport
  trackState_eq : s'.trackState p.track = (stampPacket .play speed (s.trackState p.track) p.data).1
  trackState_other : ∀ track ≤ 1, track ≠ p.track → s'.trackState track = s.trackState track
  transmitted_eq : s'.transmitted disk data =
    if p.plen ≠ 0 ∧ (p.track = 0 ∨ s.audioTransport) then
      [⟨p.track, (stampPacket .play speed (s.trackState p.track) p.data).2, some p⟩] else []

theorem noteRtp_keeps (s : RTPdumpFileSource P) :
    (∀ track, s.noteRtp.trackState track = s.trackState track) ∧ s.noteRtp.mSpeed = s.mSpeed ∧
      s.noteRtp.audioTransport = s.audioTransport ∧ s.noteRtp.buffer = s.buffer := by
  unfold noteRtp
  split <;> exact ⟨fun _ => rfl, rfl, rfl, rfl⟩

theorem stamp_keeps (s : RTPdumpFileSource P) (client : Client) (speed : ℕ) :
    (s.stamp client speed).r = s.r ∧ (s.stamp client speed).audioTransport = s.audioTransport := by
  unfold stamp
  split <;> exact ⟨rfl, rfl⟩

/-- The packet of the recording which a source holds after a fetch. -/
theorem heldPacket_hold {n : ℕ} {b : RDBuffer} {r : RTPdumpFileReader P} (h : Intact disk data s)
    (hread : RTPdumpFileReader.readNextPacket disk s.mReader s.buffer = some (n + 1, b, r)) :
    (unreadChunks disk data.chunckList).reverse[(r.unread disk).length]? = some b := by
  obtain ⟨front, hfront⟩ := h.suffix
  rw [(unread_eq_cons h.sound.reader hread).2] at hfront
  rw [← hfront, List.reverse_append, List.reverse_cons, List.append_assoc, ← List.length_reverse,
    List.getElem?_append_right le_rfl, Nat.sub_self]
  rfl

/-- What a call of `Play` which reads a packet leaves. -/
theorem replayed_placed {n speed : ℕ} {b : RDBuffer} {r : RTPdumpFileReader P} (h : Intact disk data s)
    (hall : ∀ p ∈ unreadChunks disk data.chunckList, p.Whole)
    (hread : RTPdumpFileReader.readNextPacket disk s.mReader s.buffer = some (n + 1, b, r)) :
    Replayed disk data s (placed disk s .play b r speed).2 b speed := by
  obtain ⟨htracks, hspeed, haudio, hbuffer⟩ := noteRtp_keeps (s.hold disk b r)
  have hheld := h.fetch hall hread
  have hstamped := hheld.stamp .play speed
  have hcourse := sameCourse_stamp (s.hold disk b r).noteRtp .play speed
  have hnote := sameCourse_noteRtp (s.hold disk b r)
  obtain ⟨htrack, hstate, hother, hdata, hlength, hplen⟩ := stamp_spec (s.hold disk b r).noteRtp .play speed
  obtain ⟨-, hsends⟩ := stamp_keeps (s.hold disk b r).noteRtp .play speed
  rw [hbuffer] at htrack hstate hother hdata hlength hplen
  rw [placed]
  generalize (s.hold disk b r).noteRtp.stamp .play speed = t at *
  have hplaced := placedLike_place t
  have hintact := hstamped.place
  have hlen : t.place.2.buffer.length = b.length := by
    obtain ⟨-, hwhole⟩ := hstamped.sound.place
    have hwithin : ¬t.mEnd < t.buffer.offset := by
      have hlt := hstamped.sound.offset_lt
      rw [hstamped.sound.end_eq, uint32Max]
      omega
    simp only [place, if_neg hwithin]
    exact hlength
  have hne : b.length ≠ 0 := by
    rw [(unread_eq_cons h.sound.reader hread).1]
    exact Nat.succ_ne_zero n
  refine ⟨hintact, ?_, ?_, ?_, ?_, ?_⟩
  · rw [hplaced.mSpeed_eq, hcourse.mSpeed_eq, hspeed]
    rfl
  · rw [hplaced.audioTransport_eq, hsends, haudio]
    rfl
  · rw [hplaced.trackState_eq]
    exact hstate.trans (by rw [htracks]; rfl)
  · intro track hle hne
    rw [hplaced.trackState_eq, hother track hle hne, htracks]
    rfl
  · have hrecorded : t.place.2.heldPacket disk data = some b := by
      rw [heldPacket, hplaced.held_eq, hcourse.held_eq, hnote.held_eq]
      exact heldPacket_hold h hread
    rw [RTPdumpFileSource.transmitted_eq hintact, hlen, hplaced.plen_eq, hplen, hplaced.mTrack_eq, htrack,
      hplaced.audioTransport_eq, hsends, haudio, hrecorded, hplaced.data_eq, hdata, htracks]
    simp only [ne_eq, hne, not_false_eq_true, true_and]
    rfl

/-- The packets of a track, in the order in which they were sent. -/
def ofTrack (sent : List SentPacket) (track : ℕ) : List SentPacket := sent.filter (·.track = track)

namespace Replayed

variable {p : RDBuffer} {speed : ℕ} {m : SentPacket}

/-- What is put up for sending is the packet with its stamp, if it is an RTP packet of a track which is sent. -/
theorem mem_transmitted (h : Replayed disk data s s' p speed) (hm : m ∈ s'.transmitted disk data) :
    p.plen ≠ 0 ∧ (p.track = 0 ∨ s.audioTransport) ∧
      m = ⟨p.track, (stampPacket .play speed (s.trackState p.track) p.data).2, some p⟩ := by
  rw [h.transmitted_eq] at hm
  split at hm
  next hsends => exact ⟨hsends.1, hsends.2, List.mem_singleton.mp hm⟩
  next => cases hm

theorem ofTrack_same (h : Replayed disk data s s' p speed) (put : List SentPacket) :
    ofTrack (put ++ s'.transmitted disk data) p.track = ofTrack put p.track ++ s'.transmitted disk data := by
  have hall : ofTrack (s'.transmitted disk data) p.track = s'.transmitted disk data := by
    refine List.filter_eq_self.mpr fun m hm => ?_
    obtain ⟨-, -, rfl⟩ := h.mem_transmitted hm
    exact decide_eq_true rfl
  rw [ofTrack, List.filter_append]
  exact congrArg (ofTrack put p.track ++ ·) hall

theorem ofTrack_other {track : ℕ} (h : Replayed disk data s s' p speed) (put : List SentPacket)
    (hne : track ≠ p.track) : ofTrack (put ++ s'.transmitted disk data) track = ofTrack put track := by
  have hnone : ofTrack (s'.transmitted disk data) track = [] := by
    refine List.filter_eq_nil_iff.mpr fun m hm => ?_
    obtain ⟨-, -, rfl⟩ := h.mem_transmitted hm
    simpa using Ne.symm hne
  rw [ofTrack, List.filter_append]
  exact (congrArg (ofTrack put track ++ ·) hnone).trans (List.append_nil _)

end Replayed

/-- A relation which stamping keeps between each packet of a track and the next one: what the track keeps agrees
with the packet it stamped last, and with what it counts goes on so. -/
structure Law (P : Type) (speeds : Set (Option ℚ)) (Counts : TrackState → RDBuffer → Prop)
    (Follows : SentPacket → SentPacket → Prop) (Agrees : TrackState → SentPacket → Prop) : Prop where
  fresh : ∀ (s : RTPdumpFileSource P) (speed : ℕ) (t : TrackState) (p : RDBuffer), s.mSpeed ∈ insert (some 1) speeds →
    s.speedDivisor = some speed → p.Whole →
      Agrees (stampPacket .play speed t p.data).1 ⟨p.track, (stampPacket .play speed t p.data).2, some p⟩
  rtcp : ∀ (speed : ℕ) (t : TrackState) (p : RDBuffer) (m : SentPacket), p.plen = 0 → Agrees t m → Counts t p →
    Agrees (stampPacket .play speed t p.data).1 m
  rtp : ∀ (s : RTPdumpFileSource P) (speed : ℕ) (t : TrackState) (p : RDBuffer) (m : SentPacket),
    s.mSpeed ∈ insert (some 1) speeds → s.speedDivisor = some speed → p.Whole → p.plen ≠ 0 → Agrees t m →
      Counts t p → Follows m ⟨p.track, (stampPacket .play speed t p.data).2, some p⟩

/-- What a run keeps: the packets which were put up follow one another on each track, and the track agrees with
the last of them. -/
structure RunSound (disk : P → Option (List UInt8)) (data : VideoChunkT P) (speeds : Set (Option ℚ))
    (Follows : SentPacket → SentPacket → Prop) (Agrees : TrackState → SentPacket → Prop) (put : List SentPacket)
    (s : RTPdumpFileSource P) : Prop where
  intact : Intact disk data s
  speed : s.mSpeed ∈ insert (some 1) speeds
  muted : s.audioTransport = false → ∀ m ∈ put, m.track = 0
  follow : ∀ track ≤ 1, (ofTrack put track).IsChain Follows
  agrees : ∀ track ≤ 1, ∀ m ∈ (ofTrack put track).getLast?, Agrees (s.trackState track) m

section

variable {Counts : TrackState → RDBuffer → Prop} {Follows : SentPacket → SentPacket → Prop}
  {Agrees : TrackState → SentPacket → Prop} {put : List SentPacket}

/-- The packet which was stamped follows the last one of its track. -/
theorem RunSound.follow_replayed {p : RDBuffer} {speed : ℕ} (law : Law P speeds Counts Follows Agrees)
    (h : RunSound disk data speeds Follows Agrees put s) (hspeed : s.speedDivisor = some speed) (hwhole : p.Whole)
    (hcounted : ∀ m ∈ (ofTrack put p.track).getLast?, Counts (s.trackState p.track) p)
    (hreplayed : Replayed disk data s s' p speed) :
    (ofTrack (put ++ s'.transmitted disk data) p.track).IsChain Follows := by
  rw [hreplayed.ofTrack_same]
  refine (h.follow p.track p.track_le).append ?_ fun m hm n hn => ?_
  · rw [hreplayed.transmitted_eq]
    split
    · exact List.isChain_singleton _
    · exact List.isChain_nil
  · obtain ⟨hrtp, -, rfl⟩ := hreplayed.mem_transmitted (List.mem_of_head? hn)
    have hagree := h.agrees p.track p.track_le m hm
    exact law.rtp s speed _ p m h.speed hspeed hwhole hrtp hagree (hcounted m hm)

/-- What its track keeps then agrees with the last packet, which is this one unless it is not sent. -/
theorem RunSound.agrees_replayed {p : RDBuffer} {speed : ℕ} (law : Law P speeds Counts Follows Agrees)
    (h : RunSound disk data speeds Follows Agrees put s) (hspeed : s.speedDivisor = some speed) (hwhole : p.Whole)
    (hcounted : ∀ m ∈ (ofTrack put p.track).getLast?, Counts (s.trackState p.track) p)
    (hreplayed : Replayed disk data s s' p speed) :
    ∀ m ∈ (ofTrack (put ++ s'.transmitted disk data) p.track).getLast?, Agrees (s'.trackState p.track) m := by
  intro m hm
  have hput := hreplayed.transmitted_eq
  rw [hreplayed.ofTrack_same] at hm
  rw [hreplayed.trackState_eq]
  split at hput
  next hsends =>
    rw [hput, List.getLast?_concat] at hm
    obtain rfl := Option.some.inj hm
    exact law.fresh s speed _ p h.speed hspeed hwhole
  next hsilent =>
    rw [hput, List.append_nil] at hm
    have hmem := List.mem_filter.mp (List.mem_of_getLast? hm)
    have htrack : m.track = p.track := of_decide_eq_true hmem.2
    have hrtcp : p.plen = 0 := by
      by_contra hrtp
      refine hsilent ⟨hrtp, ?_⟩
      cases haudio : s.audioTransport with
      | true => exact Or.inr rfl
      | false => exact Or.inl (htrack ▸ h.muted haudio m hmem.1)
    exact law.rtcp speed _ p m hrtcp (h.agrees p.track p.track_le m hm) (hcounted m hm)

/-- The next packet of the recording is stamped and put up. -/
theorem RunSound.replayed {p : RDBuffer} {speed : ℕ} (law : Law P speeds Counts Follows Agrees)
    (h : RunSound disk data speeds Follows Agrees put s) (hspeed : s.speedDivisor = some speed) (hwhole : p.Whole)
    (hcounts : (∃ m ∈ put, m.track = p.track) → Counts (s.trackState p.track) p)
    (hreplayed : Replayed disk data s s' p speed) :
    RunSound disk data speeds Follows Agrees (put ++ s'.transmitted disk data) s' := by
  have hcounted : ∀ m ∈ (ofTrack put p.track).getLast?, Counts (s.trackState p.track) p := by
    intro m hm
    have hmem := List.mem_filter.mp (List.mem_of_getLast? hm)
    exact hcounts ⟨m, hmem.1, of_decide_eq_true hmem.2⟩
  refine ⟨hreplayed.intact, hreplayed.mSpeed_eq ▸ h.speed, ?_, ?_, ?_⟩
  · intro hmuted m hm
    rw [hreplayed.audioTransport_eq] at hmuted
    rcases List.mem_append.mp hm with hold | hnew
    · exact h.muted hmuted m hold
    · obtain ⟨-, hsends, rfl⟩ := hreplayed.mem_transmitted hnew
      exact hsends.resolve_right (by rw [hmuted]; exact Bool.false_ne_true)
  · intro track hle
    by_cases hsame : track = p.track
    · exact hsame ▸ h.follow_replayed law hspeed hwhole hcounted hreplayed
    · rw [hreplayed.ofTrack_other put hsame]
      exact h.follow track hle
  · intro track hle
    by_cases hsame : track = p.track
    · exact hsame ▸ h.agrees_replayed law hspeed hwhole hcounted hreplayed
    · rw [hreplayed.ofTrack_other put hsame, hreplayed.trackState_other track hle hsame]
      exact h.agrees track hle

/-- A call of `Play` keeps it, if the next packet of the recording counts as it should. -/
theorem RunSound.play {sent : List SentPacket} {ok : Bool} {packet : Option (ℕ × List UInt8)}
    (law : Law P speeds Counts Follows Agrees) (hall : ∀ p ∈ unreadChunks disk data.chunckList, p.Whole)
    (h : RunSound disk data speeds Follows Agrees (s.putUp disk data sent) s) (hmeets : s.Meets disk data Counts sent)
    (hplay : s.play disk = some (ok, packet, s')) :
    RunSound disk data speeds Follows Agrees
      (s'.putUp disk data (sent ++ packet.toList.map fun p => ⟨p.1, p.2, s.heldPacket disk data⟩)) s' := by
  obtain ⟨rfl, hcases⟩ := play_cases h.intact.sound hplay
  obtain ⟨hintact, hempty⟩ := h.intact.playTransmit
  obtain ⟨htracks, hspeed, haudio⟩ := playTransmit_keeps s
  obtain ⟨hreader, -⟩ := playTransmit_same s
  have hsent : RunSound disk data speeds Follows Agrees (s.putUp disk data sent) s.playTransmit.2 :=
    ⟨hintact, hspeed ▸ h.speed, fun hmuted => h.muted (haudio ▸ hmuted), h.follow,
      fun track hle m hm => htracks track ▸ h.agrees track hle m hm⟩
  rw [← hreader] at hcases
  rcases hcases with ⟨b, r, hread, rfl⟩ | ⟨n, b, r, speed, hread, hdivisor, rfl⟩
  · -- the recording has ended, so the buffer stays empty
    have hended := hintact.ended hread
    have hlength : b.length = 0 := by
      rcases readNextPacket_ended hread with rfl | hzero
      · exact hempty
      · exact hzero
    have hnone : ({ s.playTransmit.2 with mReader := r, buffer := b } : RTPdumpFileSource P).transmitted disk data = [] := by
      rw [transmitted_eq hended]
      exact if_neg fun hsends => hsends.1 hlength
    rw [putUp, hnone, List.append_nil]
    exact ⟨hended, hsent.speed, hsent.muted, hsent.follow, hsent.agrees⟩
  · have hreplayed : Replayed disk data s.playTransmit.2 _ b speed := replayed_placed hintact hall hread
    obtain ⟨-, hcons⟩ := unread_eq_cons hintact.sound.reader hread
    have hmem : b ∈ unreadChunks disk data.chunckList := hintact.suffix.subset (hcons ▸ List.mem_cons_self)
    have hdivisor' : s.playTransmit.2.speedDivisor = some speed := by
      rw [← hdivisor, speedDivisor, speedDivisor, (noteRtp_keeps _).2.1]
      rfl
    rw [hreader] at hcons
    exact hsent.replayed law hdivisor' (hall b hmem) (fun hput => htracks b.track ▸ hmeets b (by rw [hcons]; rfl) hput) hreplayed

/-- The start-up leaves the source in order, and the speed is still one. -/
theorem intact_new {audioTransport : Bool} {uninitialised : ℤ}
    (hall : ∀ p ∈ unreadChunks disk data.chunckList, p.Whole)
    (h : RTPdumpFileSource.new disk data audioTransport uninitialised = some s) :
    Intact disk data s ∧ s.mSpeed = some 1 := by
  obtain ⟨⟨ok, t⟩, hcall, rfl⟩ := Option.map_eq_some_iff.mp (new_eq disk data audioTransport uninitialised ▸ h)
  refine playHandler_preserves (Q := fun s => Intact disk data s ∧ s.mSpeed = some 1) ?_ ?_ ?_ ?_ ?_ hcall
    ⟨Intact.initial disk data audioTransport uninitialised, rfl⟩
  · rintro s ⟨hintact, hspeed⟩
    exact ⟨hintact.playTransmit.1, (playTransmit_keeps s).2.1.trans hspeed⟩
  · rintro s b r hread ⟨hintact, hspeed⟩
    exact ⟨hintact.ended hread, hspeed⟩
  · rintro s n b r hread ⟨hintact, hspeed⟩
    exact ⟨hintact.fetch hall hread, (noteRtp_keeps _).2.1.trans hspeed⟩
  · rintro s client speed - ⟨hintact, hspeed⟩
    exact ⟨hintact.stamp client speed, (sameCourse_stamp s client speed).mSpeed_eq.trans hspeed⟩
  · rintro s ⟨hintact, hspeed⟩
    exact ⟨hintact.place, (placedLike_place s).mSpeed_eq.trans hspeed⟩

/-- The packets which a run has put up follow one another on each track, if the start-up leaves the track in
agreement with the packet in the buffer. -/
theorem PlayRun.sound {sent : List SentPacket} (law : Law P speeds Counts Follows Agrees)
    (hall : ∀ p ∈ unreadChunks disk data.chunckList, p.Whole)
    (hstart : ∀ audioTransport uninitialised s, RTPdumpFileSource.new disk data audioTransport uninitialised = some s →
      ∀ m ∈ s.transmitted disk data, Agrees (s.trackState m.track) m)
    (hrun : PlayRun disk data speeds Counts sent s) :
    RunSound disk data speeds Follows Agrees (s.putUp disk data sent) s := by
  induction hrun with
  | @new audioTransport uninitialised s h =>
    obtain ⟨hintact, hspeed⟩ := intact_new hall h
    have hmem {m : SentPacket} (hm : m ∈ s.putUp disk data []) : m ∈ s.transmitted disk data := by
      rwa [putUp, List.nil_append] at hm
    refine ⟨hintact, hspeed ▸ Set.mem_insert _ _, ?_, ?_, ?_⟩
    · intro hmuted m hm
      have hput := hmem hm
      rw [transmitted_eq hintact] at hput
      split at hput
      next hsends =>
        obtain rfl := List.mem_singleton.mp hput
        exact hsends.2.2.resolve_right (by rw [hmuted]; exact Bool.false_ne_true)
      next => cases hput
    · intro track hle
      rw [putUp, List.nil_append, transmitted_eq hintact]
      split
      · rw [ofTrack, List.filter_singleton]
        cases decide (s.mTrack = track) with
        | true => exact List.isChain_singleton _
        | false => exact List.isChain_nil
      · exact List.isChain_nil
    · intro track hle m hm
      have hput := List.mem_filter.mp (List.mem_of_getLast? hm)
      obtain rfl : m.track = track := by simpa using hput.2
      exact hstart audioTransport uninitialised s h m (hmem hput.1)
  | play hrun hmeets h ih => exact ih.play law hall hmeets h
  | @setSpeed sent s speed hspeed hrun ih =>
    obtain ⟨hintact, -, hmuted, hfollow, hagrees⟩ := ih
    have ⟨⟨hdata, hreader, hend, hoffset⟩, hsuffix, hwhole, htrack⟩ := hintact
    have hset : Intact disk data (s.setSpeed speed) := ⟨⟨hdata, hreader, hend, hoffset⟩, hsuffix, hwhole, htrack⟩
    have hput : (s.setSpeed speed).putUp disk data sent = s.putUp disk data sent := by
      rw [putUp, putUp, transmitted_eq hset, transmitted_eq hintact]
      rfl
    rw [hput]
    exact ⟨hset, Set.mem_insert_of_mem _ hspeed, hmuted, hfollow, hagrees⟩

/-- So do those which it has sent. -/
theorem PlayRun.isChain {sent : List SentPacket} (law : Law P speeds Counts Follows Agrees)
    (hall : ∀ p ∈ unreadChunks disk data.chunckList, p.Whole)
    (hstart : ∀ audioTransport uninitialised s, RTPdumpFileSource.new disk data audioTransport uninitialised = some s →
      ∀ m ∈ s.transmitted disk data, Agrees (s.trackState m.track) m)
    (hrun : PlayRun disk data speeds Counts sent s) :
    ∀ track ≤ 1, (ofTrack sent track).IsChain Follows := by
  intro track hle
  have hput := (hrun.sound law hall hstart).follow track hle
  rw [putUp, ofTrack, List.filter_append] at hput
  exact hput.left_of_append

/-- So many calls of `Play`, if each of them meets the condition. -/
def plays (disk : P → Option (List UInt8)) (data : VideoChunkT P) (Counts : TrackState → RDBuffer → Prop)
    [∀ t p, Decidable (Counts t p)] : ℕ → List SentPacket → RTPdumpFileSource P →
      Option (List SentPacket × RTPdumpFileSource P)
  | 0, sent, s => some (sent, s)
  | n + 1, sent, s =>
    if s.Meets disk data Counts sent then
      (s.play disk).bind fun result =>
        plays disk data Counts n (sent ++ result.2.1.toList.map fun p => ⟨p.1, p.2, s.heldPacket disk data⟩) result.2.2
    else none

theorem PlayRun.plays [∀ t p, Decidable (Counts t p)] {n : ℕ} {sent sent' : List SentPacket}
    (hrun : PlayRun disk data speeds Counts sent s)
    (h : RTPdumpFileSource.plays disk data Counts n sent s = some (sent', s')) :
    PlayRun disk data speeds Counts sent' s' := by
  induction n generalizing sent s with
  | zero =>
    obtain ⟨rfl, rfl⟩ := Prod.mk.inj (Option.some.inj h)
    exact hrun
  | succ n ih =>
    rw [RTPdumpFileSource.plays] at h
    split at h
    next hmeets =>
      obtain ⟨⟨ok, packet, t⟩, hplay, hrest⟩ := Option.bind_eq_some_iff.mp h
      exact ih (hrun.play hmeets hplay) hrest
    next => cases h

end

end RTPdumpFileSource

/-- A video packet with these fields in its header, an RTP packet unless its length is zero. -/
def recordOf (plen : ℕ) (seq ts : List UInt8) : RDBuffer where
  length := 12
  plen := plen
  offset := 0
  data := [128, 96] ++ seq ++ ts ++ [0, 0, 0, 0]

/-- A disk with one chunk of these packets. -/
def diskWith (records : List RDBuffer) : Unit → Option (List UInt8) := fun _ =>
  some (vramagic ++ List.replicate 2307 0 ++ records.flatMap RDBuffer.bytes)

/-- The recording of that chunk. -/
def oneChunk : VideoChunkT Unit where
  chunckList := [{ path := (), duration := 1000, position := 0 }]
  total_le := by decide

/-- So many calls of `Play` after the start-up. -/
def replay (records : List RDBuffer) (Counts : TrackState → RDBuffer → Prop) [∀ t p, Decidable (Counts t p)] (n : ℕ) :
    Option (List SentPacket × RTPdumpFileSource Unit) :=
  (RTPdumpFileSource.new (diskWith records) oneChunk false 0).bind
    (RTPdumpFileSource.plays (diskWith records) oneChunk Counts n [])

theorem playRun_replay {records : List RDBuffer} {Counts : TrackState → RDBuffer → Prop}
    [∀ t p, Decidable (Counts t p)] {n : ℕ} {speeds : Set (Option ℚ)} {sent : List SentPacket}
    {s : RTPdumpFileSource Unit} (h : replay records Counts n = some (sent, s)) :
    RTPdumpFileSource.PlayRun (diskWith records) oneChunk speeds Counts sent s := by
  obtain ⟨t, hnew, hplays⟩ := Option.bind_eq_some_iff.mp h
  exact (RTPdumpFileSource.PlayRun.new hnew).plays hplays

end RecordingAgent.RtspPlay
