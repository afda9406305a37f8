import RecordingAgent.RtspPlay.Source

/-!
# Fetching packets for a seek

The handler keeps the source sound and places every packet it fetches. For a seek it fetches one packet at
a time, so the loop of the seek returns exactly when a packet which is left reaches the position, and then
holds the first one that does.
-/

namespace RecordingAgent.RtspPlay

open Foundation

/-- The offset of a packet without the bit which tells its track. -/
def RDBuffer.time (p : RDBuffer) : ℕ := if p.offset.testBit 31 then p.offset % 2 ^ 31 else p.offset

/-- Where the handler places a packet when the first one was at this offset. -/
def relative (first : ℤ) (p : RDBuffer) : ℤ := ((p.time : ℤ) - first) % 2 ^ 32

/-- A header holds an offset of 32 bits. -/
theorem rdRead_offset_lt {f : ReadStream} {b : RDBuffer} (hb : b.offset < 2 ^ 32) :
    (rdRead f b).2.1.offset < 2 ^ 32 := by
  simp only [rdRead]
  split
  · exact hb
  · rename_i hheader
    have hlength : ((f.fread rdPacketSize).1.drop 4).length = 4 := by
      rw [List.length_drop, not_not.mp hheader, rdPacketSize]
    simpa [hlength] using beValue_lt ((f.fread rdPacketSize).1.drop 4)

/-- So does the buffer after a packet was looked for. -/
theorem readNextPacket_offset_lt {P : Type*} {disk : P → Option (List UInt8)} {r r' : RTPdumpFileReader P}
    {b b' : RDBuffer} {n : ℕ} (hb : b.offset < 2 ^ 32)
    (hcall : RTPdumpFileReader.readNextPacket disk r b = some (n, b', r')) : b'.offset < 2 ^ 32 := by
  fun_induction RTPdumpFileReader.readNextPacket disk r b with
  | case1 => cases hcall
  | case2 r b f hopen n c f' hread hne =>
    have hlt := rdRead_offset_lt (f := f) hb
    grind
  | case3 r b f hopen n c f' hread hzero hindex hnext ih =>
    have hlt := rdRead_offset_lt (f := f) hb
    exact ih (by simpa [hread] using hlt) hcall
  | case4 r b f hopen n c f' hread hzero hindex hnext =>
    have hlt := rdRead_offset_lt (f := f) hb
    grind
  | case5 r b f hopen n c f' hread hzero hindex =>
    have hlt := rdRead_offset_lt (f := f) hb
    grind

namespace RTPdumpFileSource

variable {P : Type} {disk : P → Option (List UInt8)} {data : VideoChunkT P} {s s' : RTPdumpFileSource P}
  {client : Client} {fuel : ℕ} {pos : ℤ}

/-- What holds of the source between calls: it reads the chunks it was made for or has come to their end,
and it was not told to stop. -/
structure Sound (data : VideoChunkT P) (s : RTPdumpFileSource P) : Prop where
  data_eq : s.mReader.mVideoData = data
  reader : s.mReader.mActiveFile = none ∨ s.mReader.Reading
  end_eq : s.mEnd = uint32Max
  offset_lt : s.buffer.offset < 2 ^ 32

namespace Sound

theorem playTransmit (h : Sound data s) : Sound data s.playTransmit.2 := by
  obtain ⟨hdata, hreader, hend, hoffset⟩ := h
  unfold RTPdumpFileSource.playTransmit
  split
  · exact ⟨hdata, hreader, hend, hoffset⟩
  · split
    · exact ⟨hdata, hreader, hend, hoffset⟩
    · split
      · exact ⟨hdata, hreader, hend, hoffset⟩
      · exact ⟨hdata, hreader, hend, hoffset⟩

theorem noteRtp (h : Sound data s) : Sound data s.noteRtp := by
  obtain ⟨hdata, hreader, hend, hoffset⟩ := h
  unfold RTPdumpFileSource.noteRtp
  split
  · exact ⟨hdata, hreader, hend, hoffset⟩
  · exact ⟨hdata, hreader, hend, hoffset⟩

theorem stamp (h : Sound data s) (client : Client) (speed : ℕ) : Sound data (s.stamp client speed) := by
  obtain ⟨hdata, hreader, hend, hoffset⟩ := h
  unfold RTPdumpFileSource.stamp
  split
  · exact ⟨hdata, hreader, hend, (Nat.mod_lt _ (by decide)).trans (by decide)⟩
  · exact ⟨hdata, hreader, hend, hoffset⟩

/-- The offset of the packet is never behind the end, so the packet is placed. -/
theorem place (h : Sound data s) :
    s.place.1 = true ∧ Sound data s.place.2 ∧ 0 ≤ s.place.2.mFirst ∧ (0 ≤ s.mFirst → s.place.2.mFirst = s.mFirst) := by
  obtain ⟨hdata, hreader, hend, hoffset⟩ := h
  have hwithin : ¬s.mEnd < s.buffer.offset := by
    rw [hend, uint32Max]
    omega
  simp only [RTPdumpFileSource.place, if_neg hwithin]
  refine ⟨trivial, ⟨hdata, hreader, hend, ?_⟩, ?_, ?_⟩
  · split <;> simp only <;> omega
  · split <;> omega
  · intro hfirst
    rw [if_neg (by omega)]

/-- What a call of the reader returns. -/
theorem read {n : ℕ} {b : RDBuffer} {r : RTPdumpFileReader P} (h : Sound data s)
    (hcall : RTPdumpFileReader.readNextPacket disk s.mReader s.buffer = some (n, b, r)) :
    Sound data { s with mReader := r, buffer := b } := by
  obtain ⟨hdata, hreader, hend, hoffset⟩ := h
  rcases hreader with hclosed | hreading
  · rw [RTPdumpFileReader.readNextPacket_closed hclosed] at hcall
    nomatch hcall
  · refine ⟨?_, ?_, hend, readNextPacket_offset_lt hoffset hcall⟩
    · exact (RTPdumpFileReader.readNextPacket_mVideoData hcall).trans hdata
    · exact (RTPdumpFileReader.reading_of_readNextPacket hreading hcall).imp_right And.right

/-- A packet which the reader returned is held. -/
theorem hold {n : ℕ} {b : RDBuffer} {r : RTPdumpFileReader P} (h : Sound data s)
    (hcall : RTPdumpFileReader.readNextPacket disk s.mReader s.buffer = some (n, b, r)) :
    Sound data (s.hold disk b r) := by
  obtain ⟨hdata, hreader, hend, hoffset⟩ := h.read hcall
  exact ⟨hdata, hreader, hend, hoffset⟩

end Sound

/-- Sending the packet leaves the reader and the first offset alone. -/
theorem playTransmit_same (s : RTPdumpFileSource P) :
    s.playTransmit.2.mReader = s.mReader ∧ s.playTransmit.2.mFirst = s.mFirst := by
  unfold playTransmit
  split
  · exact ⟨rfl, rfl⟩
  · split
    · exact ⟨rfl, rfl⟩
    · split <;> exact ⟨rfl, rfl⟩

/-- How many packets are left. -/
def left (disk : P → Option (List UInt8)) (s : RTPdumpFileSource P) : ℕ := (s.mReader.unread disk).length

theorem left_noteRtp (s : RTPdumpFileSource P) : s.noteRtp.left disk = s.left disk := by
  unfold noteRtp
  split <;> rfl

theorem left_stamp (s : RTPdumpFileSource P) (client : Client) (speed : ℕ) :
    (s.stamp client speed).left disk = s.left disk := by
  unfold stamp
  split <;> rfl

theorem left_place (disk : P → Option (List UInt8)) (s : RTPdumpFileSource P) : s.place.2.left disk = s.left disk := by
  unfold place
  split <;> rfl

/-- The source in which the handler fetches: the packet in the buffer was sent if it plays. -/
theorem sent_spec (hsound : Sound data s) (client : Client) :
    ∃ t, (if client = .play then s.playTransmit.2 else s) = t ∧ Sound data t ∧ t.mReader = s.mReader ∧
      t.mFirst = s.mFirst := by
  refine ⟨_, rfl, ?_⟩
  split
  · exact ⟨hsound.playTransmit, playTransmit_same s⟩
  · exact ⟨hsound, rfl, rfl⟩

/-- A prefetch does what a call of the handler does, or nothing. -/
theorem prefetch_cases {again : RTPdumpFileSource P → Option (RTPdumpFileSource P)} {missing : Bool}
    (h : prefetch again client missing s = some s') : again s = some s' ∨ s' = s := by
  rw [prefetch] at h
  split at h
  · exact Or.inl h
  · exact Or.inr (Option.some.inj h).symm

/-- The handler keeps the source sound. Once it has placed a packet the first one is known; it places none
only if none is left. -/
theorem playHandler_sound {ok : Bool} (hsound : Sound data s)
    (h : playHandler disk fuel s client = some (ok, s')) :
    Sound data s' ∧ s'.left disk ≤ s.left disk ∧ (ok = true → 0 ≤ s'.mFirst) ∧
      (ok = false → s'.mFirst = s.mFirst ∧ s.mReader.unread disk = []) := by
  induction fuel generalizing s client s' ok with
  | zero => nomatch h
  | succ fuel ih =>
    obtain ⟨t, ht, hstart, hreader, hfirst⟩ := sent_spec hsound client
    have hend : t.mEnd ≠ 0 := by rw [hstart.end_eq]; decide
    have hagain {u v : RTPdumpFileSource P} {missing : Bool} (hu : Sound data u)
        (hv : prefetch (fun s => (playHandler disk fuel s .init).map Prod.snd) client missing u = some v) :
        Sound data v ∧ v.left disk ≤ u.left disk := by
      rcases prefetch_cases hv with hcall | rfl
      · obtain ⟨⟨ok, w⟩, hcall', rfl⟩ := Option.map_eq_some_iff.mp hcall
        obtain ⟨hw, hless, -⟩ := ih hu hcall'
        exact ⟨hw, hless⟩
      · exact ⟨hu, le_rfl⟩
    rw [playHandler, ht] at h
    simp only [if_neg hend] at h
    split at h
    · nomatch h
    · rename_i b r hread
      obtain ⟨rfl, rfl⟩ := Prod.mk.inj (Option.some.inj h)
      obtain ⟨hempty, hempty'⟩ := (RTPdumpFileReader.unread_of_readNextPacket hstart.reader hread).1 rfl
      refine ⟨hstart.read hread, ?_, fun hok => absurd hok Bool.false_ne_true, fun _ => ⟨hfirst, ?_⟩⟩
      · rw [left, hempty']
        exact Nat.zero_le _
      · rw [← hreader, hempty]
    · rename_i n b r hread
      simp only [Option.bind_eq_some_iff, Option.map_eq_some_iff] at h
      obtain ⟨s1, h1, speed, -, s2, h2, s3, h3, hplace⟩ := h
      have hless := (RTPdumpFileReader.unread_of_readNextPacket hstart.reader hread).2 (Nat.succ_ne_zero n)
      rw [hreader] at hless
      obtain ⟨hs1, hless1⟩ := hagain (hstart.hold hread).noteRtp h1
      obtain ⟨hs2, hless2⟩ := hagain (hs1.stamp client speed) h2
      obtain ⟨hs3, hless3⟩ := hagain hs2 h3
      rw [left_noteRtp] at hless1
      rw [left_stamp] at hless2
      have hleft := left_place disk s3
      obtain ⟨hok, hsound', hfirst, -⟩ := hs3.place
      rw [hplace] at hok hsound' hfirst hleft
      refine ⟨hsound', ?_, fun _ => hfirst, fun hno => Bool.noConfusion (hno.symm.trans hok)⟩
      rw [hleft]
      exact hless3.trans (hless2.trans (hless1.trans hless.le))

theorem prefetch_sound {missing : Bool} (hsound : Sound data s)
    (h : prefetch (fun s => (playHandler disk fuel s .init).map Prod.snd) client missing s = some s') :
    Sound data s' ∧ s'.left disk ≤ s.left disk := by
  rcases prefetch_cases h with hcall | rfl
  · obtain ⟨⟨ok, t⟩, hcall', rfl⟩ := Option.map_eq_some_iff.mp hcall
    obtain ⟨hsound', hless, -⟩ := playHandler_sound hsound hcall'
    exact ⟨hsound', hless⟩
  · exact ⟨hsound, le_rfl⟩

/-- More calls of the handler by itself than there are packets left make no difference. -/
theorem playHandler_fuel {fuel' : ℕ} (hsound : Sound data s) (hfuel : s.left disk < fuel)
    (hfuel' : s.left disk < fuel') : playHandler disk fuel s client = playHandler disk fuel' s client := by
  induction fuel generalizing fuel' s client with
  | zero => omega
  | succ fuel ih =>
    cases fuel' with
    | zero => omega
    | succ fuel' =>
      obtain ⟨t, ht, hstart, hreader, -⟩ := sent_spec hsound client
      have hend : t.mEnd ≠ 0 := by rw [hstart.end_eq]; decide
      have hagree {u : RTPdumpFileSource P} {missing : Bool} (hu : Sound data u)
          (hless : u.left disk < s.left disk) :
          prefetch (fun s => (playHandler disk fuel s .init).map Prod.snd) client missing u =
            prefetch (fun s => (playHandler disk fuel' s .init).map Prod.snd) client missing u := by
        rw [prefetch, prefetch]
        split
        · exact congrArg (Option.map Prod.snd) (ih hu (by omega) (by omega))
        · rfl
      rw [playHandler, playHandler, ht]
      simp only [if_neg hend]
      cases hread : RTPdumpFileReader.readNextPacket disk t.mReader t.buffer with
      | none => rfl
      | some result =>
        obtain ⟨n, b, r⟩ := result
        cases n with
        | zero => rfl
        | succ n =>
          have hless := (RTPdumpFileReader.unread_of_readNextPacket hstart.reader hread).2 (Nat.succ_ne_zero n)
          rw [hreader] at hless
          have hheld : Sound data (t.hold disk b r).noteRtp := (hstart.hold hread).noteRtp
          have hleft : (t.hold disk b r).noteRtp.left disk < s.left disk := by
            rw [left_noteRtp]
            exact hless
          -- each prefetch starts with fewer packets left than the handler did
          simp only [hagree hheld hleft]
          apply Option.bind_congr
          intro s1 h1
          obtain ⟨hs1, hless1⟩ := prefetch_sound hheld h1
          apply Option.bind_congr
          intro speed _
          have hleft1 : (s1.stamp client speed).left disk < s.left disk := by
            rw [left_stamp]
            exact hless1.trans_lt hleft
          simp only [hagree (hs1.stamp client speed) hleft1]
          apply Option.bind_congr
          intro s2 h2
          obtain ⟨hs2, hless2⟩ := prefetch_sound (hs1.stamp client speed) h2
          simp only [hagree hs2 (hless2.trans_lt hleft1)]

/-- What stamping leaves alone. -/
structure SameCourse (s s' : RTPdumpFileSource P) : Prop where
  mReader_eq : s'.mReader = s.mReader
  mFirst_eq : s'.mFirst = s.mFirst
  mSpeed_eq : s'.mSpeed = s.mSpeed
  mEnd_eq : s'.mEnd = s.mEnd
  held_eq : s'.held = s.held

theorem sameCourse_noteRtp (s : RTPdumpFileSource P) : SameCourse s s.noteRtp := by
  unfold noteRtp
  split <;> exact ⟨rfl, rfl, rfl, rfl, rfl⟩

theorem noteRtp_buffer (s : RTPdumpFileSource P) : s.noteRtp.buffer = s.buffer := by
  unfold noteRtp
  split <;> rfl

theorem sameCourse_stamp (s : RTPdumpFileSource P) (client : Client) (speed : ℕ) :
    SameCourse s (s.stamp client speed) := by
  unfold stamp
  split <;> exact ⟨rfl, rfl, rfl, rfl, rfl⟩

/-- Stamping takes the bit of the track away from the offset. -/
theorem stamp_offset (s : RTPdumpFileSource P) (client : Client) (speed : ℕ) :
    (s.stamp client speed).buffer.offset = s.buffer.time := by
  unfold stamp RDBuffer.time
  split <;> rfl

/-- Stamping forgets no pointer. -/
theorem stamp_pointers (s : RTPdumpFileSource P) (client : Client) (speed : ℕ) :
    (s.aR = true → (s.stamp client speed).aR = true) ∧ (s.vR = true → (s.stamp client speed).vR = true) := by
  unfold stamp
  split
  · exact ⟨fun _ => rfl, id⟩
  · exact ⟨id, fun _ => rfl⟩

/-- The packet in the buffer, stamped and placed. -/
def placed (disk : P → Option (List UInt8)) (s : RTPdumpFileSource P) (client : Client) (b : RDBuffer)
    (r : RTPdumpFileReader P) (speed : ℕ) : Bool × RTPdumpFileSource P :=
  ((s.hold disk b r).noteRtp.stamp client speed).place

/-- The offset of the first packet, which this packet may be. -/
def firstOffset (s : RTPdumpFileSource P) (b : RDBuffer) : ℤ := if s.mFirst < 0 then b.time else s.mFirst

/-- What placing a packet sets. -/
theorem placed_spec {b : RDBuffer} {r : RTPdumpFileReader P} (client : Client) (speed : ℕ)
    (hsound : Sound data (s.hold disk b r)) :
    (placed disk s client b r speed).1 = true ∧ Sound data (placed disk s client b r speed).2 ∧
      (placed disk s client b r speed).2.mReader = r ∧
      (placed disk s client b r speed).2.mFirst = s.firstOffset b ∧
      (placed disk s client b r speed).2.mSpeed = s.mSpeed ∧
      (placed disk s client b r speed).2.mPos = relative (s.firstOffset b) b ∧
      (placed disk s client b r speed).2.held = some (r.unread disk).length := by
  have hnote := sameCourse_noteRtp (s.hold disk b r)
  have hstamp := sameCourse_stamp (s.hold disk b r).noteRtp client speed
  have htime := stamp_offset (s.hold disk b r).noteRtp client speed
  rw [noteRtp_buffer] at htime
  have hstamped := hsound.noteRtp.stamp client speed
  obtain ⟨hok, hplace, -⟩ := hstamped.place
  rw [placed]
  generalize (s.hold disk b r).noteRtp.stamp client speed = t at *
  have htfirst : t.mFirst = s.mFirst := hstamp.mFirst_eq.trans hnote.mFirst_eq
  have hwithin : ¬t.mEnd < t.buffer.offset := by
    rw [hstamped.end_eq, uint32Max]
    have := hstamped.offset_lt
    omega
  refine ⟨hok, hplace, ?_, ?_, ?_, ?_, ?_⟩
  · simp only [place, if_neg hwithin]
    exact hstamp.mReader_eq.trans hnote.mReader_eq
  · simp only [place, if_neg hwithin]
    rw [htfirst, htime]
    rfl
  · simp only [place, if_neg hwithin]
    exact hstamp.mSpeed_eq.trans hnote.mSpeed_eq
  · have hnonneg : 0 ≤ (((s.hold disk b r).buffer.time : ℤ) - s.firstOffset b) % 2 ^ 32 :=
      Int.emod_nonneg _ (by norm_num)
    simp only [place, if_neg hwithin]
    rw [htfirst, htime]
    exact Int.toNat_of_nonneg hnonneg
  · simp only [place, if_neg hwithin]
    exact hstamp.held_eq.trans hnote.held_eq

/-- A packet is placed without a call of the handler by itself, if it is fetched for a seek or nothing else is
to be prefetched. -/
theorem playHandler_eq_placed {n : ℕ} {b : RDBuffer} {r : RTPdumpFileReader P} (fuel : ℕ) (hclient : client ≠ .play)
    (hend : s.mEnd ≠ 0) (hcall : RTPdumpFileReader.readNextPacket disk s.mReader s.buffer = some (n, b, r))
    (hne : n ≠ 0) (hseen : client = .init → b.plen ≠ 0 ∧ s.aR = true ∧ s.vR = true) :
    playHandler disk (fuel + 1) s client = s.speedDivisor.map (placed disk s client b r) := by
  obtain ⟨n, rfl⟩ := Nat.exists_eq_succ_of_ne_zero hne
  have hspeed : (s.hold disk b r).noteRtp.speedDivisor = s.speedDivisor := by
    rw [speedDivisor, (sameCourse_noteRtp _).mSpeed_eq]
    rfl
  have hnote (hinit : client = .init) : (s.hold disk b r).noteRtp = { s.hold disk b r with r := true } :=
    if_pos (hseen hinit).1
  have hnone {again : RTPdumpFileSource P → Option (RTPdumpFileSource P)} {missing : Bool}
      {t : RTPdumpFileSource P} (h : client = .init → missing = false) :
      prefetch again client missing t = some t := by
    apply if_neg
    rintro ⟨hinit, hmissing⟩
    rw [h hinit] at hmissing
    nomatch hmissing
  have hrtp : client = .init → (!(s.hold disk b r).noteRtp.r) = false := by
    intro hinit
    rw [hnote hinit]
    rfl
  have hpointers (speed : ℕ) : client = .init →
      ((s.hold disk b r).noteRtp.stamp client speed).aR = true ∧
        ((s.hold disk b r).noteRtp.stamp client speed).vR = true := by
    intro hinit
    obtain ⟨haudio, hvideo⟩ := stamp_pointers (s.hold disk b r).noteRtp client speed
    rw [hnote hinit] at haudio hvideo ⊢
    exact ⟨haudio (hseen hinit).2.1, hvideo (hseen hinit).2.2⟩
  rw [playHandler]
  simp only [if_neg hend, if_neg hclient, hcall]
  rw [hnone hrtp, Option.bind_some, hspeed, Option.map_eq_bind]
  apply Option.bind_congr
  intro speed _
  rw [hnone fun hinit => by simp [(hpointers speed hinit).2], Option.bind_some,
    hnone fun hinit => by simp [(hpointers speed hinit).1], Option.map_some]
  rfl

/-- With nothing left the reader ends. -/
theorem playHandler_eq_ended {b : RDBuffer} {r : RTPdumpFileReader P} (hclient : client ≠ .play)
    (hend : s.mEnd ≠ 0) (hcall : RTPdumpFileReader.readNextPacket disk s.mReader s.buffer = some (0, b, r)) :
    playHandler disk (fuel + 1) s client = some (false, { s with mReader := r, buffer := b }) := by
  rw [playHandler]
  simp only [if_neg hend, if_neg hclient, hcall]

/-- A fetch for a seek when a packet is left: it is placed if the speed can divide. -/
theorem playHandler_seek_next {p : RDBuffer} {rest : List RDBuffer} (fuel : ℕ) (hsound : Sound data s)
    (hreading : s.mReader.Reading) (hunread : s.mReader.unread disk = p :: rest) :
    (s.speedDivisor = none → playHandler disk (fuel + 1) s .seek = none) ∧
      (s.speedDivisor ≠ none →
        ∃ s', playHandler disk (fuel + 1) s .seek = some (true, s') ∧ Sound data s' ∧
          s'.mReader.unread disk = rest ∧ s'.mFirst = s.firstOffset p ∧ s'.mSpeed = s.mSpeed ∧
          s'.mPos = relative (s.firstOffset p) p ∧ s'.held = some rest.length) := by
  obtain ⟨r', hcall, hlength, -, hrest, -⟩ :=
    (RTPdumpFileReader.readNextPacket_spec disk s.buffer hreading).2 p rest hunread
  have hend : s.mEnd ≠ 0 := by rw [hsound.end_eq]; decide
  rw [playHandler_eq_placed fuel (by decide) hend hcall hlength (by simp)]
  constructor
  · intro hspeed
    rw [hspeed, Option.map_none]
  · intro hspeed
    obtain ⟨speed, hspeed⟩ := Option.ne_none_iff_exists'.mp hspeed
    obtain ⟨hok, hsound', hreader, hfirst, hspeed', hpos, hheld⟩ :=
      placed_spec .seek speed (hsound.hold hcall)
    refine ⟨(placed disk s .seek p r' speed).2, ?_, hsound', by rw [hreader, hrest], hfirst, hspeed', hpos, ?_⟩
    · rw [hspeed, Option.map_some, ← hok]
    · rw [hheld, hrest]

/-- What a fetch for a seek does when a packet is left and the speed can divide. -/
structure Fetched (data : VideoChunkT P) (disk : P → Option (List UInt8)) (s s' : RTPdumpFileSource P)
    (p : RDBuffer) (rest : List RDBuffer) : Prop where
  sound : Sound data s'
  unread_eq : s'.mReader.unread disk = rest
  mFirst_eq : s'.mFirst = s.mFirst
  mSpeed_eq : s'.mSpeed = s.mSpeed
  mPos_eq : s'.mPos = relative s.mFirst p
  held_eq : s'.held = some rest.length

/-- Once the first packet is known, the others are placed by it. -/
theorem playHandler_seek_packet {p : RDBuffer} {rest : List RDBuffer} (fuel : ℕ) (hsound : Sound data s)
    (hfirst : 0 ≤ s.mFirst) (hreading : s.mReader.Reading) (hunread : s.mReader.unread disk = p :: rest) :
    (s.speedDivisor = none → playHandler disk (fuel + 1) s .seek = none) ∧
      (s.speedDivisor ≠ none →
        ∃ s', playHandler disk (fuel + 1) s .seek = some (true, s') ∧ Fetched data disk s s' p rest) := by
  obtain ⟨hslow, hfetch⟩ := playHandler_seek_next fuel hsound hreading hunread
  refine ⟨hslow, fun hspeed => ?_⟩
  obtain ⟨s', hcall, hsound', hrest, hfirst', hspeed', hpos, hheld⟩ := hfetch hspeed
  have hknown : s.firstOffset p = s.mFirst := if_neg (not_lt.mpr hfirst)
  rw [hknown] at hfirst' hpos
  exact ⟨s', hcall, hsound', hrest, hfirst', hspeed', hpos, hheld⟩

theorem playHandler_seek_ended (fuel : ℕ) (hsound : Sound data s) (hreading : s.mReader.Reading)
    (hunread : s.mReader.unread disk = []) :
    ∃ s', playHandler disk (fuel + 1) s .seek = some (false, s') ∧ Sound data s' ∧
      s'.mReader.mActiveFile = none ∧ s'.mPos = s.mPos := by
  obtain ⟨b, r, hcall, hclosed, -⟩ := (RTPdumpFileReader.readNextPacket_spec disk s.buffer hreading).1 hunread
  have hend : s.mEnd ≠ 0 := by rw [hsound.end_eq]; decide
  rw [playHandler_eq_ended (by decide) hend hcall]
  exact ⟨_, rfl, hsound.read hcall, hclosed, rfl⟩

theorem playHandler_seek_closed (hsound : Sound data s) (hclosed : s.mReader.mActiveFile = none) :
    playHandler disk (fuel + 1) s .seek = none := by
  have hend : s.mEnd ≠ 0 := by rw [hsound.end_eq]; decide
  have hcall : RTPdumpFileReader.readNextPacket disk s.mReader s.buffer = none :=
    RTPdumpFileReader.readNextPacket_closed hclosed
  rw [playHandler]
  simp only [if_neg hend, reduceCtorEq, if_false, hcall]

/-- The first of these packets whose place reaches the position as a number has so many packets behind it,
and the speed can divide. -/
def Reaches (s : RTPdumpFileSource P) (pos : ℤ) (packets : List RDBuffer) (behind : ℕ) : Prop :=
  s.speedDivisor ≠ none ∧
    ∃ p rest, packets.dropWhile (fun q => relative s.mFirst q < pos) = p :: rest ∧ rest.length = behind

/-- With no file open the loop of a seek reads a closed file. -/
theorem scan_closed (hsound : Sound data s) (hclosed : s.mReader.mActiveFile = none) (hpos : s.mPos < pos) :
    scan disk pos fuel s = none := by
  cases fuel with
  | zero => rfl
  | succ fuel => rw [scan, if_pos hpos, handlerFuel, playHandler_seek_closed hsound hclosed, Option.bind_none]

/-- The loop of a seek returns exactly when one of the packets which are left reaches the position, and
then holds the first of these. -/
theorem scan_held_iff {behind : ℕ} (hsound : Sound data s) (hfirst : 0 ≤ s.mFirst) (hpos : s.mPos < pos)
    (hfuel : (s.mReader.unread disk).length + 2 ≤ fuel) :
    (∃ s', scan disk pos fuel s = some s' ∧ s'.held = some behind) ↔
      s.Reaches pos (s.mReader.unread disk) behind := by
  induction fuel generalizing s with
  | zero => omega
  | succ fuel ih =>
    rcases hsound.reader with hclosed | hreading
    · have hunread : s.mReader.unread disk = [] := by rw [RTPdumpFileReader.unread, hclosed]
      rw [scan_closed hsound hclosed hpos, Reaches, hunread]
      simp
    · cases hunread : s.mReader.unread disk with
      | nil =>
        obtain ⟨s', hcall, hsound', hclosed, hpos'⟩ :=
          playHandler_seek_ended (s.mReader.unread disk).length hsound hreading hunread
        rw [scan, if_pos hpos, handlerFuel, hcall, Option.bind_some,
          scan_closed hsound' hclosed (hpos'.symm ▸ hpos), Reaches]
        simp
      | cons p rest =>
        obtain ⟨hslow, hfetch⟩ := playHandler_seek_packet (s.mReader.unread disk).length
          hsound hfirst hreading hunread
        rw [scan, if_pos hpos, handlerFuel]
        by_cases hspeed : s.speedDivisor = none
        · rw [hslow hspeed, Reaches]
          simp [hspeed]
        · obtain ⟨s', hcall, hfetched⟩ := hfetch hspeed
          rw [hunread, List.length_cons] at hfuel
          rw [hcall, Option.bind_some, Reaches]
          by_cases hreached : relative s.mFirst p < pos
          · -- the loop goes on behind this packet
            have hrest := ih hfetched.sound (hfetched.mFirst_eq ▸ hfirst) (hfetched.mPos_eq ▸ hreached)
              (by rw [hfetched.unread_eq]; omega)
            rw [hrest, Reaches, speedDivisor, hfetched.mSpeed_eq, hfetched.mFirst_eq, hfetched.unread_eq,
              List.dropWhile_cons_of_pos (by simpa using hreached)]
            rfl
          · -- it ends with this packet
            obtain ⟨fuel, rfl⟩ : ∃ k, fuel = k + 1 := ⟨fuel - 1, by omega⟩
            rw [scan, hfetched.mPos_eq, if_neg hreached,
              List.dropWhile_cons_of_neg (by simpa using hreached)]
            simp [hspeed, hfetched.held_eq]

end RTPdumpFileSource

end RecordingAgent.RtspPlay
