import RecordingAgent.Foundation.FieldMemory
import RecordingAgent.Reagent.XmlUtil
import RecordingAgent.Reagent.Config

/-!
# Padding a camera name and undoing it

Names travel padded with underscores to twelve characters. The download trims them from the front, and ends
the name wherever an underscore meets another; the agent trims them from the back. A character above 127 is
negative, so for the second trimmer it is a blank.
-/

namespace RecordingAgent.Reagent

open Foundation

/-- A text in a buffer of zeros. -/
def stored (text : CString) : Memory := fun a => text[a]?.getD nul

/-- Whether the name ends at a character: an underscore at the end or before another. -/
def EndsAt (vString : Memory) (len i : ℕ) : Prop :=
  vString i = '_' ∧ (vString (i + 1) = nul ∨ vString (i + 1) = '_' ∨ i + 1 ≥ len)

instance (vString : Memory) (len i : ℕ) : Decidable (EndsAt vString len i) :=
  inferInstanceAs (Decidable (vString i = '_' ∧ (vString (i + 1) = nul ∨ vString (i + 1) = '_' ∨ i + 1 ≥ len)))

/-- `trim_trailing_undersore` -/
def trimTrailingUndersore (vString : Memory) (len : ℕ) : Memory :=
  (List.range len).foldl (fun v i => if EndsAt v len i then Function.update v i nul else v) vString

/-- Whether `trunc_name` cuts a character: `*p == '_' || *p <= ' '`, where `char` is signed. -/
def isTruncated (c : Char) : Bool := c = '_' || c.toNat ≤ ' '.toNat || 128 ≤ c.toNat

/-- The loop of `trunc_name`, which ends at the first character of the name. -/
def truncFrom : ℕ → Memory → Memory
  | 0, pname => pname
  | p + 1, pname => if isTruncated (pname (p + 1)) then truncFrom p (Function.update pname (p + 1) nul) else pname

/-- `trunc_name` in the memory of a name. -/
def truncNameAt (pname : Memory) (size : ℕ) : Memory := if size > 0 then truncFrom (size - 1) pname else pname

/-- A camera name: up to twelve characters, of which the last is neither an underscore nor a blank. -/
structure CameraName where
  text : CString
  nonempty : text ≠ []
  length_le : text.length ≤ cameraNameLength
  notNul : nul ∉ text
  last : ∀ c, text.getLast? = some c → c ≠ '_' ∧ ¬ isBlank c

/-- Both trimmers, the first with any size of at least a name, give back the name from its padded form. -/
def PaddingUndone (s : CameraName) : Prop :=
  let padded := stored (padUnderscores s.text cameraNameLength)
  (∀ len, cameraNameLength ≤ len → (trimTrailingUndersore padded len).text 0 cameraNameLength = s.text) ∧
    (truncNameAt padded cameraNameLength).text 0 cameraNameLength = s.text

/-! ## What the trimmers do to a character -/

theorem stored_of_lt {text : CString} {i : ℕ} (h : i < text.length) : stored text i = text[i] := by
  rw [stored, List.getElem?_eq_getElem h, Option.getD_some]

/-- A character is looked at before it or what follows it is changed. -/
theorem trimTrailingUndersore_apply (m : Memory) (len i : ℕ) :
    trimTrailingUndersore m len i = if i < len ∧ EndsAt m len i then nul else m i := by
  unfold trimTrailingUndersore
  suffices hrun : ∀ n i, (List.range n).foldl (fun v i => if EndsAt v len i then Function.update v i nul else v) m i =
      if i < n ∧ EndsAt m len i then nul else m i from hrun len i
  intro n
  induction n with
  | zero => intro i; simp
  | succ n ih =>
    intro i
    rw [List.range_succ, List.foldl_append, List.foldl_cons, List.foldl_nil]
    set v := (List.range n).foldl (fun v i => if EndsAt v len i then Function.update v i nul else v) m
    have hsame : EndsAt v len n ↔ EndsAt m len n := by
      unfold EndsAt
      rw [ih n, ih (n + 1), if_neg (by omega), if_neg (by omega)]
    by_cases hi : i = n
    · subst hi
      simp only [hsame, Nat.lt_succ_self, true_and]
      split
      · exact Function.update_self _ _ _
      · rw [ih i, if_neg (by omega)]
    · have hiff : i < n + 1 ↔ i < n := by omega
      simp only [hiff, ← ih i]
      split
      · exact Function.update_of_ne hi _ _
      · rfl

/-- A character is cut from the end if everything from it on is. -/
theorem truncFrom_apply (m : Memory) (p i : ℕ) :
    truncFrom p m i = if 0 < i ∧ i ≤ p ∧ ∀ j, i ≤ j → j ≤ p → isTruncated (m j) = true then nul else m i := by
  induction p generalizing m with
  | zero =>
    rw [truncFrom, if_neg]
    rintro ⟨hpos, hle, -⟩
    omega
  | succ p ih =>
    rw [truncFrom]
    split
    next hcut =>
      rw [ih]
      have hbefore : ∀ j, j ≤ p → Function.update m (p + 1) nul j = m j := fun j hj =>
        Function.update_of_ne (by omega) _ _
      by_cases hi : i = p + 1
      · subst hi
        rw [if_neg (by omega), Function.update_self, if_pos]
        refine ⟨Nat.succ_pos p, le_refl _, fun j hj hj' => ?_⟩
        rwa [le_antisymm hj' hj]
      · rw [Function.update_of_ne hi]
        refine if_congr ⟨?_, ?_⟩ rfl rfl
        · rintro ⟨hpos, hle, hall⟩
          refine ⟨hpos, by omega, fun j hj hj' => ?_⟩
          rcases Nat.lt_or_eq_of_le hj' with hlt | rfl
          · rw [← hbefore j (by omega)]
            exact hall j hj (by omega)
          · exact hcut
        · rintro ⟨hpos, hle, hall⟩
          refine ⟨hpos, by omega, fun j hj hj' => ?_⟩
          rw [hbefore j hj']
          exact hall j hj (by omega)
    next hkeep =>
      rw [if_neg]
      rintro ⟨-, hle, hall⟩
      exact hkeep (hall (p + 1) hle (le_refl _))

/-- What `trunc_name` leaves of a name: the first character, and the others up to the last which is not cut. -/
def cutName : CString → CString
  | [] => []
  | c :: rest => c :: rest.rdropWhile isTruncated

/-- The trimmer of the agent cuts from the back, but never the first character. -/
theorem text_truncNameAt_eq {text : CString} {size : ℕ} (hnul : nul ∉ text) (hlength : text.length ≤ size) :
    (truncNameAt (stored text) size).text 0 size = cutName text := by
  cases text with
  | nil =>
    rw [truncNameAt]
    split
    next => exact Memory.text_of_nul (by rw [truncFrom_apply]; exact if_neg fun h => absurd h.1 (by decide)) _
    next h => rw [Nat.eq_zero_of_not_pos h]; rfl
  | cons c rest =>
    have hpos : 0 < size := (Nat.zero_lt_succ _).trans_le hlength
    rw [cutName, truncNameAt, if_pos hpos]
    set kept := rest.rdropWhile isTruncated with hkept
    set cut := rest.rtakeWhile isTruncated with hcut
    have hsplit : c :: rest = (c :: kept) ++ cut :=
      congrArg (List.cons c) List.rdropWhile_append_rtakeWhile.symm
    have hsize : (c :: kept).length + cut.length ≤ size := by rw [← List.length_append, ← hsplit]; exact hlength
    rw [hsplit] at hnul ⊢
    have hstored : ∀ i (h : i < (c :: kept).length), stored ((c :: kept) ++ cut) i = (c :: kept)[i] := fun i h => by
      rw [stored, List.getElem?_append_left h, List.getElem?_eq_getElem h, Option.getD_some]
    rw [Memory.text_eq_iff (fun h => hnul (List.mem_append_left _ h)) (by omega)]
    simp only [Nat.zero_add, truncFrom_apply]
    refine ⟨fun i hi => ?_, fun hlt => if_pos ⟨Nat.zero_lt_succ _, by omega, fun j hj _ => ?_⟩⟩
    · rw [hstored i hi, if_neg]
      rintro ⟨hi', -, hall⟩
      have hne : kept ≠ [] := by
        intro h
        rw [h, List.length_singleton] at hi
        omega
      have hlast := hall kept.length (by rw [List.length_cons] at hi; omega) (by rw [List.length_cons] at hsize; omega)
      have hlt : kept.length < (c :: kept).length := Nat.lt_succ_self _
      have hplace : (c :: kept)[kept.length] = kept.getLast hne := by
        rw [← List.getLast_cons hne, List.getLast_eq_getElem]
        rfl
      rw [hstored _ hlt, hplace] at hlast
      exact List.rdropWhile_last_not _ rest hne hlast
    · unfold stored
      rcases Nat.lt_or_ge j ((c :: kept) ++ cut).length with hin | hout
      · have hmem : ((c :: kept) ++ cut)[j]?.getD nul ∈ cut := by
          rw [List.getElem?_append_right hj, List.getElem?_eq_getElem (by rw [List.length_append] at hin; omega)]
          exact List.getElem_mem _
        exact List.mem_rtakeWhile_imp hmem
      · rw [List.getElem?_eq_none hout]
        rfl

theorem dropWhile_congr {p q : Char → Bool} {text : CString} (h : ∀ c ∈ text, p c = q c) :
    text.dropWhile p = text.dropWhile q := by
  induction text with
  | nil => rfl
  | cons c text ih =>
    obtain ⟨hc, htext⟩ := List.forall_mem_cons.mp h
    rw [List.dropWhile_cons, List.dropWhile_cons, hc, ih htext]

/-- Without characters above 127 the trimmer of the agent cuts underscores and blanks behind the first character. -/
theorem text_truncNameAt {text : CString} {size : ℕ} (hnul : nul ∉ text) (hascii : ∀ c ∈ text, c.toNat < 128)
    (hlength : text.length ≤ size) : (truncNameAt (stored text) size).text 0 size = truncName text := by
  rw [text_truncNameAt_eq hnul hlength]
  cases text with
  | nil => rfl
  | cons c rest =>
    have hsame : ∀ d ∈ rest, isTruncated d = (d = '_' || d.toNat ≤ ' '.toNat) := fun d hd => by
      have hsmall := hascii d (List.mem_cons_of_mem c hd)
      rw [isTruncated, decide_eq_false (show ¬ 128 ≤ d.toNat by omega), Bool.or_false]
    rw [cutName, truncName, List.rdropWhile, List.rdropWhile,
      dropWhile_congr fun d hd => hsame d (List.mem_reverse.mp hd)]

/-! ## When padding is undone -/

/-- No two underscores of a name meet. -/
def SingleUnderscores (s : CString) : Prop := s.IsChain fun c d => ¬ (c = '_' ∧ d = '_')

/-- The name is one character, or ends in a character of at most 127. -/
def EndsInAscii (s : CString) : Prop := s.length = 1 ∨ ∀ c, s.getLast? = some c → c.toNat < 128

/-- The characters of a padded name. -/
theorem stored_padUnderscores {s : CString} {size i : ℕ} (h : i < size) :
    stored (padUnderscores s size) i = s[i]?.getD '_' := by
  unfold stored padUnderscores
  rcases Nat.lt_or_ge i s.length with hlt | hle
  · rw [List.getElem?_append_left hlt, List.getElem?_eq_getElem hlt]
    rfl
  · rw [List.getElem?_append_right hle, List.getElem?_replicate, if_pos (by omega), List.getElem?_eq_none hle]
    rfl

theorem stored_padUnderscores_of_le {s : CString} {size i : ℕ} (hs : s.length ≤ size) (h : size ≤ i) :
    stored (padUnderscores s size) i = nul := by
  have hlength : (padUnderscores s size).length = size := by simp [padUnderscores, hs]
  rw [stored, List.getElem?_eq_none (by omega), Option.getD_none]

namespace CameraName

variable (s : CameraName)

theorem last_ne_underscore (h : s.text.length - 1 < s.text.length) : s.text[s.text.length - 1] ≠ '_' :=
  (s.last _ (by rw [List.getLast?_eq_getElem?, List.getElem?_eq_getElem h])).1

/-- A padded name ends early only where two of its underscores meet. -/
theorem endsAt_iff {len i : ℕ} (hlen : cameraNameLength ≤ len) (hi : i < s.text.length) :
    EndsAt (stored (padUnderscores s.text cameraNameLength)) len i ↔
      s.text[i] = '_' ∧ s.text[i + 1]? = some '_' := by
  have hle := s.length_le
  rw [EndsAt, stored_padUnderscores (by omega), List.getElem?_eq_getElem hi, Option.getD_some]
  refine and_congr_right fun hunderscore => ?_
  have hnext : i + 1 < s.text.length := by
    by_contra hend
    obtain rfl : i = s.text.length - 1 := by omega
    exact s.last_ne_underscore hi hunderscore
  have hnotNul : s.text[i + 1] ≠ nul := fun h => s.notNul (h ▸ List.getElem_mem hnext)
  rw [stored_padUnderscores (by omega), List.getElem?_eq_getElem hnext, Option.getD_some, Option.some_inj]
  constructor
  · rintro (h | h | h)
    · exact absurd h hnotNul
    · exact h
    · omega
  · exact fun h => Or.inr (Or.inl h)

/-- The padding is cut. -/
theorem endsAt_padding {len : ℕ} (hlt : s.text.length < cameraNameLength) :
    EndsAt (stored (padUnderscores s.text cameraNameLength)) len s.text.length := by
  refine ⟨?_, ?_⟩
  · rw [stored_padUnderscores hlt, List.getElem?_eq_none (le_refl _), Option.getD_none]
  · rcases Nat.lt_or_ge (s.text.length + 1) cameraNameLength with hnext | hend
    · right; left
      rw [stored_padUnderscores hnext, List.getElem?_eq_none (Nat.le_succ _), Option.getD_none]
    · left
      exact stored_padUnderscores_of_le s.length_le hend

/-- The trimmer of the download undoes the padding exactly when no two underscores meet. -/
theorem trimTrailingUndersore_iff {len : ℕ} (hlen : cameraNameLength ≤ len) :
    (trimTrailingUndersore (stored (padUnderscores s.text cameraNameLength)) len).text 0 cameraNameLength = s.text ↔
      SingleUnderscores s.text := by
  have hle := s.length_le
  rw [Memory.text_eq_iff s.notNul s.length_le, SingleUnderscores, List.isChain_iff_getElem]
  simp only [Nat.zero_add, trimTrailingUndersore_apply]
  constructor
  · rintro ⟨hchars, -⟩ i hi ⟨hfirst, hsecond⟩
    have hends := (s.endsAt_iff hlen (Nat.lt_of_succ_lt hi)).mpr
      ⟨hfirst, by rw [List.getElem?_eq_getElem hi, hsecond]⟩
    have hchar := hchars i (Nat.lt_of_succ_lt hi)
    rw [if_pos ⟨by omega, hends⟩] at hchar
    exact s.notNul (hchar ▸ List.getElem_mem _)
  · refine fun h => ⟨fun i hi => ?_, fun hlt => if_pos ⟨by omega, s.endsAt_padding hlt⟩⟩
    rw [if_neg, stored_padUnderscores (by omega), List.getElem?_eq_getElem hi, Option.getD_some]
    rintro ⟨-, hends⟩
    obtain ⟨hfirst, hsecond⟩ := (s.endsAt_iff hlen hi).mp hends
    obtain ⟨hnext, hsecond⟩ := List.getElem?_eq_some_iff.mp hsecond
    exact h i hnext ⟨hfirst, hsecond⟩

/-- The characters of the padding are cut from the end. -/
theorem isTruncated_padding {j : ℕ} (hj : s.text.length ≤ j) (hj' : j ≤ cameraNameLength - 1) :
    isTruncated (stored (padUnderscores s.text cameraNameLength) j) = true := by
  rw [stored_padUnderscores (by unfold cameraNameLength at *; omega), List.getElem?_eq_none hj]
  rfl

/-- The last character of a name is cut from the end exactly when it is negative. -/
theorem isTruncated_last (h : s.text.length - 1 < s.text.length) :
    isTruncated s.text[s.text.length - 1] = true ↔ 128 ≤ s.text[s.text.length - 1].toNat := by
  obtain ⟨hunderscore, hblank⟩ := s.last _ (by rw [List.getLast?_eq_getElem?, List.getElem?_eq_getElem h])
  have hvisible : ¬ s.text[s.text.length - 1].toNat ≤ 32 := fun hle => hblank (decide_eq_true hle)
  simp [isTruncated, hunderscore, hvisible]

/-- The trimmer of the agent undoes the padding exactly when the name ends in a character of at most 127. -/
theorem truncNameAt_iff :
    (truncNameAt (stored (padUnderscores s.text cameraNameLength)) cameraNameLength).text 0 cameraNameLength = s.text ↔
      EndsInAscii s.text := by
  have hle := s.length_le
  have hpos := List.length_pos_of_ne_nil s.nonempty
  have hlast : s.text.length - 1 < s.text.length := by omega
  have hstored : ∀ i (h : i < s.text.length), stored (padUnderscores s.text cameraNameLength) i = s.text[i] :=
    fun i h => by rw [stored_padUnderscores (by omega), List.getElem?_eq_getElem h, Option.getD_some]
  have hascii : EndsInAscii s.text ↔ (s.text.length = 1 ∨ ¬ 128 ≤ s.text[s.text.length - 1].toNat) := by
    rw [EndsInAscii, List.getLast?_eq_getElem?, List.getElem?_eq_getElem hlast]
    simp
  rw [hascii, Memory.text_eq_iff s.notNul s.length_le, truncNameAt, if_pos (by decide)]
  simp only [Nat.zero_add, truncFrom_apply]
  constructor
  · rintro ⟨hchars, -⟩
    by_contra hcut
    rw [not_or, not_not, ← s.isTruncated_last hlast] at hcut
    have hchar := hchars (s.text.length - 1) hlast
    rw [if_pos] at hchar
    · exact s.notNul (hchar ▸ List.getElem_mem _)
    · refine ⟨by omega, by omega, fun j hj hj' => ?_⟩
      rcases hj.eq_or_lt with rfl | hlt
      · rw [hstored _ hlast]
        exact hcut.2
      · exact s.isTruncated_padding (by omega) hj'
  · refine fun h => ⟨fun i hi => ?_, fun hlt => if_pos ⟨hpos, by omega, fun j => s.isTruncated_padding⟩⟩
    rw [if_neg, hstored i hi]
    rintro ⟨hi', -, hall⟩
    have hcut := hall (s.text.length - 1) (by omega) (by omega)
    rw [hstored _ hlast, s.isTruncated_last hlast] at hcut
    rcases h with hone | hkeep
    · omega
    · exact hkeep hcut

end CameraName

/-- Both trimmers undo the padding of a name exactly when no two of its underscores meet and it ends in a
character of at most 127. -/
theorem paddingUndone_iff (s : CameraName) : PaddingUndone s ↔ SingleUnderscores s.text ∧ EndsInAscii s.text := by
  refine and_congr ?_ s.truncNameAt_iff
  exact ⟨fun h => (s.trimTrailingUndersore_iff (le_refl _)).mp (h _ (le_refl _)),
    fun h len hlen => (s.trimTrailingUndersore_iff hlen).mpr h⟩

/-- The name `CAB__REAR` comes back as `CAB` from the download. -/
theorem not_paddingUndone_repeated : ¬ ∀ s : CameraName, PaddingUndone s := by
  intro h
  have htrim := (h ⟨"CAB__REAR".toList, by decide, by decide, by decide, by simp [isBlank]⟩).1 _ (le_refl _)
  exact absurd htrim (by decide +kernel)

end RecordingAgent.Reagent
