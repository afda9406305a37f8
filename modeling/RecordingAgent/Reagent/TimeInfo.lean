import RecordingAgent.Metarec.ChunkName

/-!
# The variable with the time information

The agent leaves the time information of its last message in an environment variable. The recorder of metadata reads
it when it starts, and the search for recorded data reads the offset. The lengths of a time source are defined outside
the repository; they are parameters. Running past a buffer is undefined in C, and has no result here.
-/

namespace RecordingAgent.Reagent

open Foundation
open RecordingAgent.Metarec (atol atoiInt)

/-- The fields of a `time_info_t` which the variable carries, and the arguments of `set_time_info`. -/
structure TimeInfo where
  systemTime : UInt32
  timeOffset : Int64
  timeSource : CString
  deriving DecidableEq

/-- `srcbuf`: the time source in a zeroed buffer of sixteen bytes, of which `strncpy` fills the first ones. -/
def srcbuf (timeSourceLength : ℕ) (timeSource : CString) : Option CString :=
  if 16 < timeSourceLength then none
  else if 16 ≤ (timeSource.take timeSourceLength).length then none
  else some (timeSource.take timeSourceLength)

/-- `TIME_INFO`, as `uc_msgcb_time_info` and `msgcb_time_info` print it. -/
def timeInfoVariable (timeSourceLength : ℕ) (info : TimeInfo) : Option CString :=
  (srcbuf timeSourceLength info.timeSource).map fun source =>
    "timestamp=".toList ++ (Nat.toDigits 10 info.systemTime.toNat ++ (", time_offset=".toList ++
      (signedDigits info.timeOffset.toInt ++ (", src='".toList ++ (source ++ ['\''])))))

/-- What the recorder of metadata does with the variable when it starts: the call of `set_time_info`, if there is
one. -/
def startUpTimeInfo (timeSourceNameLen : ℕ) (getEnv : CString) : Option (Option TimeInfo) :=
  match following "timestamp=".toList getEnv with
  | none => some none
  | some timeStr =>
    match following "time_offset=".toList getEnv with
    | none => some none
    | some offsetStr =>
      match following "src='".toList getEnv with
      | none => some none
      | some sourceStr =>
        -- all of the rest is copied, without a terminator, and cut at the first quote
        if timeSourceNameLen < sourceStr.length then none
        else
          (strchr sourceStr '\'').map fun k =>
            some ⟨UInt32.ofInt (atoiInt timeStr), Int64.ofInt (atol offsetStr), sourceStr.take k⟩

/-- `get_timeoffset` -/
def getTimeoffset (s : Option CString) : ℤ :=
  ((s.bind (following "time_offset=".toList)).map atol).getD 0

/-- Both readers recover from the variable what it was made of. -/
def Survives (timeSourceLength timeSourceNameLen : ℕ) (info : TimeInfo) : Prop :=
  ∃ text, timeInfoVariable timeSourceLength info = some text ∧
    startUpTimeInfo timeSourceNameLen text = some (some info) ∧ getTimeoffset (some text) = info.timeOffset.toInt

variable {source rest : CString}

theorem not_mem_toDigits {c : Char} (h : c.isDigit = false) (n : ℕ) : c ∉ Nat.toDigits 10 n := by
  intro hmem
  rw [isDigit_toDigits n c hmem] at h
  cases h

theorem not_mem_signedDigits {c : Char} (h : c.isDigit = false) (hsign : c ≠ '-') (z : ℤ) :
    c ∉ signedDigits z := by
  intro hmem
  rcases mem_signedDigits hmem with hdigit | rfl
  · rw [hdigit] at h
    cases h
  · exact hsign rfl

/-- The seconds are read back, since a number of more than thirty-one bits wraps twice. -/
theorem ofInt_atoiInt (t : UInt32) (hrest : rest.takeWhile Char.isDigit = []) :
    UInt32.ofInt (atoiInt (Nat.toDigits 10 t.toNat ++ rest)) = t := by
  have hlt := t.toNat_lt
  have hatol : atol (Nat.toDigits 10 t.toNat ++ rest) = t.toNat := by
    rw [atol, atoi_append (isDigit_toDigits _) Nat.toDigits_ne_nil hrest, decimalValue_toDigits]
    omega
  rw [atoiInt, hatol]
  apply UInt32.toNat_inj.mp
  rw [UInt32.ofInt, UInt32.toNat_ofNat']
  have hmod := Int.bmod_emod (x := (t.toNat : ℤ)) (m := 2 ^ 32)
  omega

/-- The offset is read back. -/
theorem atol_signedDigits (offset : Int64) (hrest : rest.takeWhile Char.isDigit = []) :
    atol (signedDigits offset.toInt ++ rest) = offset.toInt := by
  have hlow := offset.le_toInt
  have hhigh := offset.toInt_lt
  rw [atol, atoi_signedDigits_append _ hrest]
  omega

/-- Neither the first part of the variable nor a number has the begin of the offset in it. -/
theorem following_timeOffset {digits : CString} (hdigits : 't' ∉ digits) (rest : CString) :
    following "time_offset=".toList ("timestamp=".toList ++ (digits ++ (", time_offset=".toList ++ rest))) =
      some rest := by
  change following ('t' :: "ime_offset=".toList) ('t' :: ("imes".toList ++ ('t' :: ("amp=".toList ++
    (digits ++ (", ".toList ++ ("time_offset=".toList ++ rest))))))) = some rest
  have hbegin : ∀ more, ¬ 't' :: "ime_offset=".toList <+: 't' :: ("imes".toList ++ more) := by
    rintro more ⟨tail, htail⟩
    have hfifth : some '_' = some 's' := congrArg (·[4]?) htail
    exact absurd hfifth (by decide)
  have hmiddle : ∀ more, ¬ 't' :: "ime_offset=".toList <+: 't' :: ("amp=".toList ++ more) := by
    rintro more ⟨tail, htail⟩
    have hsecond : some 'i' = some 'a' := congrArg (·[1]?) htail
    exact absurd hsecond (by decide)
  rw [following_cons (hbegin _), following_append_of_notMem (by decide), following_cons (hmiddle _),
    following_append_of_notMem (by decide), following_append_of_notMem hdigits, following_append_of_notMem (by decide)]
  exact following_append _ rest

/-- Nothing before the source has its begin in it. -/
theorem following_src {digits offset : CString} (hdigits : 's' ∉ digits) (hoffset : 's' ∉ offset) (rest : CString) :
    following "src='".toList ("timestamp=".toList ++ (digits ++ (", time_offset=".toList ++
      (offset ++ (", src='".toList ++ rest))))) = some rest := by
  change following ('s' :: "rc='".toList) ("time".toList ++ ('s' :: ("tamp=".toList ++ (digits ++
    (", time_off".toList ++ ('s' :: ("et=".toList ++ (offset ++ (", ".toList ++ ("src='".toList ++ rest))))))))))
      = some rest
  have hstamp : ∀ more, ¬ 's' :: "rc='".toList <+: 's' :: ("tamp=".toList ++ more) := by
    rintro more ⟨tail, htail⟩
    have hsecond : some 'r' = some 't' := congrArg (·[1]?) htail
    exact absurd hsecond (by decide)
  have hset : ∀ more, ¬ 's' :: "rc='".toList <+: 's' :: ("et=".toList ++ more) := by
    rintro more ⟨tail, htail⟩
    have hsecond : some 'r' = some 'e' := congrArg (·[1]?) htail
    exact absurd hsecond (by decide)
  rw [following_append_of_notMem (by decide), following_cons (hstamp _), following_append_of_notMem (by decide),
    following_append_of_notMem hdigits, following_append_of_notMem (by decide), following_cons (hset _),
    following_append_of_notMem (by decide), following_append_of_notMem hoffset, following_append_of_notMem (by decide)]
  exact following_append _ rest

/-- The offset is read from the variable whatever the source is. -/
theorem getTimeoffset_timeInfoVariable {timeSourceLength : ℕ} {info : TimeInfo} {text : CString}
    (h : timeInfoVariable timeSourceLength info = some text) : getTimeoffset (some text) = info.timeOffset.toInt := by
  obtain ⟨source, -, rfl⟩ := Option.map_eq_some_iff.mp h
  rw [getTimeoffset, Option.bind_some, following_timeOffset (not_mem_toDigits (by decide) _)]
  exact atol_signedDigits _ rfl

/-- At its start the recorder finds the seconds and the offset, and the source up to its first quote if the buffer has
room for all of it and the closing quote. -/
theorem startUpTimeInfo_timeInfoVariable {timeSourceLength timeSourceNameLen : ℕ} {info : TimeInfo} {text : CString}
    (hsource : srcbuf timeSourceLength info.timeSource = some source)
    (h : timeInfoVariable timeSourceLength info = some text) :
    startUpTimeInfo timeSourceNameLen text =
      if timeSourceNameLen < source.length + 1 then none
      else some (some ⟨info.systemTime, info.timeOffset, source.takeWhile (· != '\'')⟩) := by
  rw [timeInfoVariable, hsource] at h
  obtain rfl := Option.some.inj h
  have hoffset := following_timeOffset (not_mem_toDigits (by decide : 't'.isDigit = false) info.systemTime.toNat)
    (signedDigits info.timeOffset.toInt ++ (", src='".toList ++ (source ++ ['\''])))
  have hsrc := following_src (not_mem_toDigits (by decide : 's'.isDigit = false) info.systemTime.toNat)
    (not_mem_signedDigits (by decide : 's'.isDigit = false) (by decide) info.timeOffset.toInt) (source ++ ['\''])
  rw [startUpTimeInfo, following_append, hoffset, hsrc]
  dsimp only
  rw [List.length_append, List.length_singleton, ofInt_atoiInt _ rfl, atol_signedDigits _ rfl, Int64.ofInt_toInt]
  split
  · rfl
  · have hquote : (source ++ ['\'']).findIdx? (· == '\'') = some ((source ++ ['\'']).findIdx (· == '\'')) := by
      rw [List.findIdx?_eq_some_iff_findIdx_eq]
      exact ⟨List.findIdx_lt_length_of_exists ⟨'\'', by simp⟩, rfl⟩
    rw [strchr, hquote, Option.map_some]
    have hend : ['\''].takeWhile (· != '\'') = [] := rfl
    have hcut : (source ++ ['\'']).take ((source ++ ['\'']).findIdx (· == '\'')) = source.takeWhile (· != '\'') := by
      have hnot : (fun c : Char => c == '\'') = fun c => ! (c != '\'') := by
        funext c
        simp [bne]
      rw [hnot, ← List.takeWhile_eq_take_findIdx_not, List.takeWhile_append]
      split
      next hall =>
        rw [hend, List.append_nil]
        exact ((List.takeWhile_prefix _).eq_of_length hall).symm
      · rfl
    rw [hcut]

/-- The time information survives exactly if its source has no quote in it and, with the closing quote, fits both
buffers. -/
theorem timeInfo_survives_iff (timeSourceLength timeSourceNameLen : ℕ) (info : TimeInfo)
    (hsource : info.timeSource.length ≤ timeSourceLength) :
    Survives timeSourceLength timeSourceNameLen info ↔
      '\'' ∉ info.timeSource ∧ timeSourceLength ≤ 16 ∧ info.timeSource.length < 16 ∧
        info.timeSource.length < timeSourceNameLen := by
  have htake : info.timeSource.take timeSourceLength = info.timeSource := List.take_of_length_le hsource
  by_cases hfits : timeSourceLength ≤ 16 ∧ info.timeSource.length < 16
  · have hbuf : srcbuf timeSourceLength info.timeSource = some info.timeSource := by
      rw [srcbuf, htake, if_neg (by omega), if_neg (by omega)]
    obtain ⟨text, htext⟩ : ∃ text, timeInfoVariable timeSourceLength info = some text := by
      rw [timeInfoVariable, hbuf]
      exact ⟨_, rfl⟩
    have hstart : startUpTimeInfo timeSourceNameLen text = _ := startUpTimeInfo_timeInfoVariable hbuf htext
    have hcut : info.timeSource.takeWhile (· != '\'') = info.timeSource ↔ '\'' ∉ info.timeSource := by
      rw [List.takeWhile_eq_self_iff]
      exact ⟨fun h hquote => absurd (h _ hquote) (by decide), fun h c hc => bne_iff_ne.mpr fun heq => h (heq ▸ hc)⟩
    constructor
    · rintro ⟨text', htext', hread, -⟩
      obtain rfl := Option.some.inj (htext.symm.trans htext')
      rw [hstart] at hread
      split at hread
      · cases hread
      next hroom =>
        have hsame := congrArg TimeInfo.timeSource (Option.some.inj (Option.some.inj hread))
        exact ⟨hcut.mp hsame, hfits.1, hfits.2, by omega⟩
    · rintro ⟨hquote, -, -, hroom⟩
      refine ⟨text, htext, ?_, getTimeoffset_timeInfoVariable htext⟩
      rw [hstart, if_neg (by omega), hcut.mpr hquote]
  · refine iff_of_false ?_ (by tauto)
    rintro ⟨text, htext, -⟩
    obtain ⟨source, hbuf, -⟩ := Option.map_eq_some_iff.mp htext
    rw [srcbuf, htake] at hbuf
    split at hbuf
    · cases hbuf
    · split at hbuf
      · cases hbuf
      · omega

/-- The least offset, with seconds of thirty-two bits. -/
theorem timeInfo_survives_extremes : Survives 15 16 ⟨4294967295, Int64.minValue, "GPS".toList⟩ :=
  (timeInfo_survives_iff 15 16 ⟨4294967295, Int64.minValue, "GPS".toList⟩ (by decide)).mpr (by decide)

/-- A source with a quote. -/
theorem timeInfo_not_survives_quote : ¬ Survives 15 16 ⟨0, 0, "O'C".toList⟩ := by
  rintro ⟨text, htext, hread, -⟩
  obtain rfl : text = "timestamp=0, time_offset=0, src='O'C'".toList := by
    have hprinted : timeInfoVariable 15 ⟨0, 0, "O'C".toList⟩ =
        some "timestamp=0, time_offset=0, src='O'C'".toList := by decide +kernel
    exact Option.some.inj (htext.symm.trans hprinted)
  exact absurd hread (by decide +kernel)

end RecordingAgent.Reagent
