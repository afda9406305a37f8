import Mathlib.Logic.Relation
import RecordingAgent.RtspPlay.SeekLanding
import RecordingAgent.RtspPlay.Session

/-!
# Dividing by the speed

The handler divides the timestamp of each packet it fetches by the speed as an unsigned integer, and the
offset by the speed as a signed one. The speed is whatever the last request asked for.
-/

namespace RecordingAgent.RtspPlay

/-- The integer part, which a conversion to an integer type keeps. -/
def integerPart (x : ℚ) : ℤ := if x < 0 then ⌈x⌉ else ⌊x⌋

/-- The conversion to `uint32_t`, for a value in its range. -/
def toUint32 (x : Option ℚ) : Option ℕ :=
  x.bind fun q => if 0 ≤ integerPart q ∧ integerPart q < 2 ^ 32 then some (integerPart q).toNat else none

/-- The conversion to `int`, for a value in its range. -/
def toInt32 (x : Option ℚ) : Option ℤ :=
  x.bind fun q => if -2 ^ 31 ≤ integerPart q ∧ integerPart q < 2 ^ 31 then some (integerPart q) else none

/-- Both conversions of the speed are of values in range, and what they give may divide. -/
def Divisible (speed : Option ℚ) : Prop :=
  (∃ u, toUint32 speed = some u ∧ u ≠ 0) ∧ ∃ i, toInt32 speed = some i ∧ i ≠ 0

theorem one_le_integerPart {q : ℚ} (h : 0 < integerPart q) : 1 ≤ q := by
  unfold integerPart at h
  split at h
  next hneg => exact absurd h (not_lt.mpr (Int.ceil_nonpos.mpr hneg.le))
  next => exact Int.floor_pos.mp h

theorem integerPart_of_one_le {q : ℚ} (h : 1 ≤ q) : integerPart q = ⌊q⌋ :=
  if_neg (by linarith)

/-- The speeds which may divide. -/
theorem divisible_iff (speed : Option ℚ) : Divisible speed ↔ ∃ q, speed = some q ∧ 1 ≤ q ∧ q < 2 ^ 31 := by
  constructor
  · rintro ⟨⟨u, hu, hne⟩, i, hi, -⟩
    obtain ⟨q, hspeed, hq⟩ := Option.bind_eq_some_iff.mp hu
    rw [hspeed, toInt32, Option.bind_some] at hi
    split at hq
    next hunsigned =>
      split at hi
      next hsigned =>
        have hpart : (integerPart q).toNat = u := Option.some.inj hq
        have hone : 1 ≤ q := one_le_integerPart (by omega)
        rw [integerPart_of_one_le hone] at hsigned
        exact ⟨q, hspeed, hone, by exact_mod_cast Int.floor_lt.mp hsigned.2⟩
      next => nomatch hi
    next => nomatch hq
  · rintro ⟨q, rfl, hone, hlt⟩
    have hpart := integerPart_of_one_le hone
    have hle : 1 ≤ ⌊q⌋ := Int.le_floor.mpr (by exact_mod_cast hone)
    have hfloor : ⌊q⌋ < 2 ^ 31 := Int.floor_lt.mpr (by exact_mod_cast hlt)
    refine ⟨⟨⌊q⌋.toNat, ?_, by omega⟩, ⌊q⌋, ?_, by omega⟩
    · rw [toUint32, Option.bind_some, hpart, if_pos (by omega)]
    · rw [toInt32, Option.bind_some, hpart, if_pos (by omega)]

namespace RTPdumpFileSource

variable {P : Type} {disk : P → Option (List UInt8)} {data : VideoChunkT P} {s s' : RTPdumpFileSource P}
  {speeds : Set (Option ℚ)} {fuel : ℕ}

/-- What happens to the source between two requests: the handler sends the packet, reads on, stamps and places
what it read, and a seek goes back to the beginning or moves to another chunk. -/
inductive Step (disk : P → Option (List UInt8)) : RTPdumpFileSource P → RTPdumpFileSource P → Prop
  | transmit {s : RTPdumpFileSource P} : Step disk s s.playTransmit.2
  | ended {s : RTPdumpFileSource P} {b : RDBuffer} {r : RTPdumpFileReader P}
      (h : RTPdumpFileReader.readNextPacket disk s.mReader s.buffer = some (0, b, r)) :
      Step disk s { s with mReader := r, buffer := b }
  | fetch {s : RTPdumpFileSource P} {n : ℕ} {b : RDBuffer} {r : RTPdumpFileReader P}
      (h : RTPdumpFileReader.readNextPacket disk s.mReader s.buffer = some (n + 1, b, r)) :
      Step disk s (s.hold disk b r).noteRtp
  | stamp {s : RTPdumpFileSource P} {client : Client} {speed : ℕ} (h : s.speedDivisor = some speed) :
      Step disk s (s.stamp client speed)
  | place {s : RTPdumpFileSource P} : Step disk s s.place.2
  | rewind {s : RTPdumpFileSource P} : Step disk s (s.rewound disk)
  | move {s : RTPdumpFileSource P} (pos mPos : ℤ) :
      Step disk s { s with mReader := (s.mReader.setSeekPosition disk pos).2, mPos := mPos }

/-- The sources which a request passes through. -/
def Passes (disk : P → Option (List UInt8)) : RTPdumpFileSource P → RTPdumpFileSource P → Prop :=
  Relation.ReflTransGen (Step disk)

/-- The handler reads a packet, and comes to its divisions. -/
def Fetches (disk : P → Option (List UInt8)) (s : RTPdumpFileSource P) : Prop :=
  ∃ n b r, RTPdumpFileReader.readNextPacket disk s.mReader s.buffer = some (n + 1, b, r)

/-- Between requests the speed is not changed. -/
theorem Step.mSpeed_eq (h : Step disk s s') : s'.mSpeed = s.mSpeed := by
  cases h with
  | transmit => unfold playTransmit; split_ifs <;> rfl
  | ended h => rfl
  | fetch h => exact (sameCourse_noteRtp _).mSpeed_eq
  | stamp h => exact (sameCourse_stamp _ _ _).mSpeed_eq
  | place => unfold RTPdumpFileSource.place; split_ifs <;> rfl
  | rewind => rfl
  | move pos mPos => rfl

theorem Passes.mSpeed_eq (h : Passes disk s s') : s'.mSpeed = s.mSpeed := by
  induction h with
  | refl => rfl
  | tail _ hstep ih => exact hstep.mSpeed_eq.trans ih

/-- A call of the handler, with its calls by itself, passes through such sources. -/
theorem passes_playHandler {client : Client} {ok : Bool}
    (h : playHandler disk fuel s client = some (ok, s')) : Passes disk s s' := by
  refine playHandler_preserves (Q := Passes disk s) ?_ ?_ ?_ ?_ ?_ h .refl
  · intro t ht
    exact ht.tail .transmit
  · intro t b r hread ht
    exact ht.tail (.ended hread)
  · intro t n b r hread ht
    exact ht.tail (.fetch hread)
  · intro t client speed hspeed ht
    exact ht.tail (.stamp hspeed)
  · intro t ht
    exact ht.tail .place

/-- So does a seek. -/
theorem passes_seek {pos code : ℤ} (h : s.seek disk pos fuel = some (code, s')) : Passes disk s s' := by
  refine seek_preserves (Q := Passes disk s) ?_ ?_ ?_ h .refl
  · intro t t' fuel ok hcall ht
    exact ht.trans (passes_playHandler hcall)
  · intro t mPos ht
    exact ht.tail (.move pos mPos)
  · intro t t' hrestart ht
    obtain ⟨⟨ok, u⟩, hcall, rfl⟩ := Option.map_eq_some_iff.mp hrestart
    exact (ht.tail .rewind).trans (passes_playHandler hcall)

/-- The speed of a session is one which was set, or the one it started with. -/
theorem Reachable.mSpeed_mem (h : Reachable disk data speeds s) : s.mSpeed = some 1 ∨ s.mSpeed ∈ speeds := by
  induction h with
  | new h =>
    obtain ⟨⟨ok, t⟩, hcall, rfl⟩ := Option.map_eq_some_iff.mp h
    exact Or.inl (passes_playHandler hcall).mSpeed_eq
  | play hs h ih =>
    obtain ⟨⟨ok, t⟩, hcall, hresult⟩ := Option.map_eq_some_iff.mp h
    obtain ⟨-, -, rfl⟩ : _ ∧ _ ∧ t = _ := by simpa using hresult
    rwa [(passes_playHandler hcall).mSpeed_eq]
  | seek hs h ih => rwa [(passes_seek h).mSpeed_eq]
  | setSpeed hspeed hs ih => exact Or.inr hspeed

/-- Whatever a request does, the handler can divide by the speed when it comes to that. -/
def DividesSafely (disk : P → Option (List UInt8)) (s : RTPdumpFileSource P) : Prop :=
  ∀ t, Passes disk s t → Fetches disk t → Divisible t.mSpeed

end RTPdumpFileSource

namespace SeekableRecording

/-- With any speed the handler reads the second of two packets after the start. -/
theorem fetches_twoPackets {speeds : Set (Option ℚ)} {speed : Option ℚ} (hspeed : speed ∈ speeds) :
    ∃ s, RTPdumpFileSource.Reachable twoPackets.disk twoPackets.data speeds s ∧ s.mSpeed = speed ∧
      s.Fetches twoPackets.disk := by
  have hread : (RTPdumpFileSource.new twoPackets.disk twoPackets.data false 0).map (fun s =>
      (RTPdumpFileReader.readNextPacket twoPackets.disk s.mReader s.buffer).map Prod.fst) = some (some 12) := by
    decide +kernel
  obtain ⟨s, hnew, hs⟩ := Option.map_eq_some_iff.mp hread
  obtain ⟨⟨n, b, r⟩, hcall, rfl⟩ := Option.map_eq_some_iff.mp hs
  exact ⟨s.setSpeed speed, .setSpeed hspeed (.new hnew), rfl, 11, b, r, hcall⟩

end SeekableRecording

namespace RTPdumpFileSource

/-- Requests with these speeds are safe with every recording exactly when each speed is at least one and below
the range of an `int`. -/
theorem dividesSafely_iff (speeds : Set (Option ℚ)) :
    (∀ (P : Type) (disk : P → Option (List UInt8)) (data : VideoChunkT P) (s : RTPdumpFileSource P),
        Reachable disk data speeds s → DividesSafely disk s) ↔
      ∀ speed ∈ speeds, ∃ q, speed = some q ∧ 1 ≤ q ∧ q < 2 ^ 31 := by
  constructor
  · intro hsafe speed hspeed
    obtain ⟨s, hreachable, hset, hfetches⟩ := SeekableRecording.fetches_twoPackets hspeed
    rw [← divisible_iff, ← hset]
    exact hsafe _ _ _ s hreachable s .refl hfetches
  · intro hspeeds P disk data s hreachable t hpasses _
    rw [divisible_iff, hpasses.mSpeed_eq]
    rcases hreachable.mSpeed_mem with hone | hmem
    · exact ⟨1, hone, le_rfl, by norm_num⟩
    · exact hspeeds _ hmem

/-- At half the speed the handler comes to a division by zero. -/
theorem not_dividesSafely_half :
    ∃ s, Reachable SeekableRecording.twoPackets.disk SeekableRecording.twoPackets.data {some (1 / 2)} s ∧
      ¬DividesSafely SeekableRecording.twoPackets.disk s := by
  obtain ⟨s, hreachable, hset, hfetches⟩ :=
    SeekableRecording.fetches_twoPackets (Set.mem_singleton (some (1 / 2 : ℚ)))
  refine ⟨s, hreachable, fun hsafe => ?_⟩
  obtain ⟨q, hq, hone, -⟩ := (divisible_iff _).mp (hset ▸ hsafe s .refl hfetches)
  rw [← Option.some.inj hq] at hone
  norm_num at hone

end RTPdumpFileSource

end RecordingAgent.RtspPlay
