import RecordingAgent.Foundation.Execution
import RecordingAgent.Foundation.InPlaceTokens
import RecordingAgent.Reagent.XmlUtil

/-!
# Text of blanks

The character data of an element lies in a static buffer, behind the terminator of which there may be the rest of
an earlier element's text, and behind the buffer other variables. `trim` goes up from the begin of the text to
the first character which is not blank; the terminator counts as blank, so for a text of blanks only it goes on
into what lies behind it. Here the callbacks are followed on the memory itself, with the addresses `trim` and
`strncpy` read. For texts with a visible character, and for empty ones, they do what the callbacks on texts do.
-/

namespace RecordingAgent.Reagent

open Foundation

/-- The addresses which can be read, counted from the begin of the buffer. -/
structure Readable where
  lo : ℤ
  hi : ℤ
  lo_le : lo ≤ 0
  le_hi : charDataBufferSize ≤ hi

/-- The variables of the parser, with the memory around the buffer. -/
structure RawParser where
  curLevel : ℕ
  curOffset : ℕ
  curParam : Option CfgParam
  grabNextValue : Bool
  offs : ℕ
  overflow : Bool
  area : ℤ → Char
  conf : Memory

/-- What an access comes to, or `none` for one outside of the readable addresses, and the addresses it reads. -/
abbrev Access (α : Type) := Option α × List ℤ

namespace Readable

variable (bounds : Readable)

/-- `strlen` of the text in the buffer. -/
def strlen (area : ℤ → Char) : Access ℤ := scanUp area (· != nul) bounds.hi.toNat 0

/-- `trim` of the text in the buffer: the address of its first character which is not blank, and the memory
with a terminator behind the last one. -/
def trim (area : ℤ → Char) : Access (ℤ × (ℤ → Char)) :=
  let length := bounds.strlen area
  match length.1 with
  | none => (none, length.2)
  | some q =>
    if q = 0 then (some (0, area), length.2)
    else
      let left := scanUp area isBlank bounds.hi.toNat 0
      let right := scanDown area isBlank (q - bounds.lo).toNat q
      match left.1, right.1 with
      | some p, some q' => (some (p, Function.update area q' nul), length.2 ++ left.2 ++ right.2)
      | some _, none => (none, length.2 ++ left.2 ++ right.2)
      | none, _ => (none, length.2 ++ left.2)

/-- The text from an address on, of at most so many characters, as `strncpy` reads it. -/
def readText (area : ℤ → Char) : ℕ → ℤ → Access CString
  | 0, _ => (some [], [])
  | n + 1, a =>
      if bounds.hi ≤ a then (none, [])
      else if area a = nul then (some [], [a])
      else
        let rest := readText area n (a + 1)
        (rest.1.map (area a :: ·), a :: rest.2)

end Readable

namespace RawParser

variable (bounds : Readable) (params : List CfgParam)

/-- Make the parameter of an element at a level the current one. -/
def paramMatch (st : RawParser) (level : ℕ) (element : CString) : Bool × RawParser :=
  match matchingParam params level element with
  | some p => (true, { st with curParam := some p })
  | none => (false, st)

/-- Forget the character data. What they leave in the buffer stays. -/
def resetCharDataBuffer (st : RawParser) : RawParser :=
  { st with offs := 0, overflow := false, grabNextValue := false }

/-- Store the character data as the value of the current parameter. -/
def processCharDataBuffer (st : RawParser) : Access RawParser :=
  match st.grabNextValue, st.curParam with
  | true, some p =>
    let arrOff := if p.isPerCamera then st.curOffset else 0
    if st.offs > 0 then
      let area := Function.update st.area st.offs nul
      match p.value with
      | none => (some { st with area := area }, [])
      | some value =>
        let trimmed := bounds.trim area
        match trimmed.1 with
        | none => (none, trimmed.2)
        | some (src, area) =>
          let source := bounds.readText area (p.maxValLen - 1) src
          (source.1.map fun text =>
            { st with area := area, conf := st.conf.strncpy (value + arrOff) text (p.maxValLen - 1) },
            trimmed.2 ++ source.2)
    else
      (some { st with conf := match p.value with
        | some value => Function.update st.conf (value + arrOff) nul
        | none => st.conf }, [])
  | _, _ => (some st, [])

/-- Go into an element once the text before it is stored. -/
def enter (st : RawParser) (element : CString) : RawParser :=
  let st := st.resetCharDataBuffer
  let r := st.paramMatch params st.curLevel element
  let st :=
    if r.1 ∧ (r.2.curParam.bind CfgParam.value).isSome then { r.2 with grabNextValue := true } else r.2
  { st with curLevel := st.curLevel + 1 }

/-- Leave an element once its text is stored; the end of a camera moves the offset to the next one. -/
def leave (st : RawParser) (el : CString) : RawParser :=
  let st := { st with curLevel := st.curLevel - 1 }
  let r := st.paramMatch params st.curLevel el
  let st :=
    if r.1 ∧ el = ("camera").toList then
      { r.2 with curOffset := r.2.curOffset + (r.2.curParam.map CfgParam.maxValLen).getD 0 }
    else r.2
  st.resetCharDataBuffer

/-- An element begins. -/
def startElement (st : RawParser) (element : CString) : Option RawParser :=
  (st.processCharDataBuffer bounds).1.map fun st => st.enter params element

/-- An element ends. -/
def endElement (st : RawParser) (el : CString) : Option RawParser :=
  (st.processCharDataBuffer bounds).1.map fun st => st.leave params el

/-- Paste parts of an element's text together. -/
def charData (st : RawParser) (s : CString) : RawParser :=
  if st.grabNextValue ∧ st.overflow = false then
    if s.length + st.offs ≥ charDataBufferSize then { st with overflow := true }
    else
      { st with
        offs := st.offs + s.length
        area := Function.update (writeText st.area st.offs s) (st.offs + s.length) nul }
  else st

/-- React to a callback. -/
def handle (st : RawParser) : Callback → Option RawParser
  | .startElement element => st.startElement bounds params element
  | .endElement el => st.endElement bounds params el
  | .charData s => some (st.charData s)

/-- React to callbacks one after the other. -/
def run (st : RawParser) (cbs : List Callback) : Option RawParser := cbs.foldlM (handle bounds params) st

/-- The addresses of the accumulated text and of its terminator, and what they hold. -/
structure HoldsText (st : RawParser) (s : CString) : Prop where
  offs : st.offs = s.length
  room : s.length < charDataBufferSize
  chars : ∀ i (h : i < s.length), st.area i = s[i]

variable {bounds : Readable} {params : List CfgParam} {st : RawParser}

/-- A piece that fits is kept behind the text so far. -/
theorem HoldsText.charData {s t : CString} (h : st.HoldsText s) (hgrab : st.grabNextValue = true)
    (hoverflow : st.overflow = false) (hfits : t.length + s.length < charDataBufferSize) :
    (st.charData t).HoldsText (s ++ t) := by
  unfold RawParser.charData
  rw [if_pos ⟨hgrab, hoverflow⟩, h.offs, if_neg (by omega)]
  refine ⟨by simp, by rw [List.length_append]; omega, fun i hi => ?_⟩
  rw [List.length_append] at hi
  have hne : (i : ℤ) ≠ (s.length : ℤ) + (t.length : ℤ) := by omega
  simp only [Function.update_of_ne hne]
  by_cases hlt : i < s.length
  · rw [writeText_before (by omega), h.chars i hlt, List.getElem_append_left hlt]
  · obtain ⟨k, rfl⟩ := Nat.exists_eq_add_of_le (not_lt.mp hlt)
    rw [Nat.cast_add, writeText_within (by omega), List.getElem_append_right (by omega)]
    simp

/-- A blank of a document. -/
def IsXmlBlank (c : Char) : Prop := c = ' ' ∨ c = '\t' ∨ c = '\n' ∨ c = '\r'

theorem IsXmlBlank.spec {c : Char} (h : IsXmlBlank c) : isBlank c = true ∧ c ≠ nul := by
  rcases h with rfl | rfl | rfl | rfl <;> decide

/-- Nothing of the pieces is kept: they are empty up to one which does not fit the buffer. -/
def Discarded (pieces : List CString) : Prop :=
  ∀ first, pieces.find? (· ≠ []) = some first → charDataBufferSize ≤ first.length

/-- What the pieces of a text of blanks leave behind what is there: blanks, and none of them only if there were none
and all are discarded. -/
theorem HoldsText.pieces {s : CString} (h : st.HoldsText s) (hgrab : st.grabNextValue = true)
    (hs : ∀ c ∈ s, IsXmlBlank c) {pieces : List CString} (hblank : ∀ t ∈ pieces, ∀ c ∈ t, IsXmlBlank c) :
    ∃ s', (pieces.foldl RawParser.charData st).HoldsText s' ∧ (∀ c ∈ s', IsXmlBlank c) ∧
      (s' = [] ↔ s = [] ∧ (st.overflow = true ∨ Discarded pieces)) ∧
      (pieces.foldl RawParser.charData st).grabNextValue = true ∧
      (pieces.foldl RawParser.charData st).curParam = st.curParam ∧
      (pieces.foldl RawParser.charData st).curOffset = st.curOffset := by
  induction pieces generalizing st s with
  | nil =>
    exact ⟨s, h, hs, ⟨fun hnil => ⟨hnil, .inr fun first hfirst => by cases hfirst⟩, fun hnil => hnil.1⟩, hgrab, rfl, rfl⟩
  | cons t pieces ih =>
    have hrest := fun t ht => hblank t (List.mem_cons_of_mem _ ht)
    rw [List.foldl_cons]
    cases hoverflow : st.overflow with
    | true =>
      have hsame : st.charData t = st := by
        unfold RawParser.charData
        rw [if_neg (by simp [hoverflow])]
      rw [hsame]
      obtain ⟨s', hholds, hblank', hnil, hkept⟩ := ih h hgrab hs hrest
      exact ⟨s', hholds, hblank', by rw [hnil, hoverflow]; simp, hkept⟩
    | false =>
      by_cases hfits : t.length + s.length < charDataBufferSize
      · have happend : ∀ c ∈ s ++ t, IsXmlBlank c :=
          List.forall_mem_append.mpr ⟨hs, hblank t List.mem_cons_self⟩
        have hkeeps : (st.charData t).grabNextValue = true ∧ (st.charData t).overflow = false ∧
            (st.charData t).curParam = st.curParam ∧ (st.charData t).curOffset = st.curOffset := by
          unfold RawParser.charData
          rw [if_pos ⟨hgrab, hoverflow⟩, h.offs, if_neg (by omega)]
          exact ⟨hgrab, hoverflow, rfl, rfl⟩
        obtain ⟨s', hholds, hblank', hnil, hgrab', hparam, hoffset⟩ :=
          ih (h.charData hgrab hoverflow hfits) hkeeps.1 happend hrest
        refine ⟨s', hholds, hblank', ?_, hgrab', hparam.trans hkeeps.2.2.1, hoffset.trans hkeeps.2.2.2⟩
        rw [hnil, hkeeps.2.1, List.append_eq_nil_iff, and_assoc]
        refine and_congr_right fun hsnil => ?_
        subst hsnil
        cases t with
        | nil => simp [Discarded]
        | cons c t =>
          have hkept : ¬ Discarded ((c :: t) :: pieces) := fun hdiscarded => by
            have := hdiscarded (c :: t) (by simp)
            rw [List.length_nil] at hfits
            omega
          simp [hkept]
      · have hover : st.charData t = { st with overflow := true } := by
          unfold RawParser.charData
          rw [if_pos ⟨hgrab, hoverflow⟩, h.offs, if_pos (by omega)]
        have hholds : RawParser.HoldsText { st with overflow := true } s := ⟨h.offs, h.room, h.chars⟩
        rw [hover]
        obtain ⟨s', hholds', hblank', hnil, hkept⟩ := ih hholds hgrab hs hrest
        refine ⟨s', hholds', hblank', ?_, hkept⟩
        rw [hnil]
        refine and_congr_right fun hsnil => ?_
        subst hsnil
        rw [List.length_nil, Nat.add_zero, not_lt] at hfits
        have hdiscarded : Discarded (t :: pieces) := by
          intro first hfirst
          have hne : t ≠ [] := by
            rintro rfl
            exact absurd hfits (by decide)
          rw [List.find?_cons_of_pos (by simpa using hne)] at hfirst
          rwa [← Option.some.inj hfirst]
        simp [hdiscarded]

/-- The length of a text without NULs is found at its terminator. -/
theorem strlen_eq {area : ℤ → Char} {n : ℕ} (hn : n < charDataBufferSize) (hchars : ∀ i < n, area (i : ℕ) ≠ nul)
    (hend : area n = nul) : (bounds.strlen area).1 = some (n : ℤ) := by
  have hhi := bounds.le_hi
  refine scanUp_eq (by omega) (fun b hb hbn => ?_) (by simp [hend]) (by omega)
  obtain ⟨i, rfl⟩ := Int.eq_ofNat_of_zero_le hb
  simpa using hchars i (by omega)

variable (bounds) in
/-- For a text of blanks `trim` runs off the memory or reads beyond the terminator. -/
theorem trim_blank {area : ℤ → Char} {n : ℕ} (hpos : 0 < n) (hn : n < charDataBufferSize)
    (hchars : ∀ i < n, isBlank (area (i : ℕ)) = true ∧ area (i : ℕ) ≠ nul) (hend : area n = nul) :
    (bounds.trim area).1 = none ∨ ∃ a ∈ (bounds.trim area).2, (n : ℤ) < a := by
  have hlength : (bounds.strlen area).1 = some (n : ℤ) := strlen_eq hn (fun i hi => (hchars i hi).2) hend
  unfold Readable.trim
  simp only [hlength]
  rw [if_neg (by omega)]
  cases hleft : (scanUp area isBlank bounds.hi.toNat 0).1 with
  | none => exact .inl rfl
  | some r =>
    obtain ⟨hle, -, hstop, hreads⟩ := scanUp_stop hleft
    -- blanks and the terminator do not stop the scan
    have hbeyond : (n : ℤ) < r := by
      by_contra hnot
      obtain ⟨i, rfl⟩ := Int.eq_ofNat_of_zero_le hle
      rcases (show i ≤ n by omega).lt_or_eq with hlt | rfl
      · rw [(hchars i hlt).1] at hstop
        cases hstop
      · rw [hend] at hstop
        exact absurd hstop (by decide)
    have hmem : r ∈ (scanUp area isBlank bounds.hi.toNat 0).2 := (hreads r).mpr ⟨hle, le_refl r⟩
    cases (scanDown area isBlank (↑n - bounds.lo).toNat ↑n).1 with
    | none => exact .inl rfl
    | some q => exact .inr ⟨r, by simp [hmem], hbeyond⟩

variable (bounds) in
/-- A text of blanks that is not empty is not stored as the empty text within its terminator. -/
theorem processCharDataBuffer_blank {s : CString} (h : st.HoldsText s) (hs : ∀ c ∈ s, IsXmlBlank c) (hne : s ≠ [])
    {p : CfgParam} {value : ℕ} (hgrab : st.grabNextValue = true) (hparam : st.curParam = some p)
    (hvalue : p.value = some value) :
    (st.processCharDataBuffer bounds).1 = none ∨ ∃ a ∈ (st.processCharDataBuffer bounds).2, (st.offs : ℤ) < a := by
  have hpos : 0 < s.length := List.length_pos_iff.mpr hne
  have hchars : ∀ i < s.length, isBlank (Function.update st.area (s.length : ℤ) nul (i : ℕ)) = true ∧
      Function.update st.area (s.length : ℤ) nul (i : ℕ) ≠ nul := by
    intro i hi
    rw [Function.update_of_ne (by omega), h.chars i hi]
    exact (hs _ (List.getElem_mem hi)).spec
  have htrim := trim_blank bounds hpos h.room hchars (Function.update_self _ _ _)
  unfold processCharDataBuffer
  simp only [hgrab, hparam, hvalue, h.offs]
  rw [if_pos hpos]
  rcases hresult : (bounds.trim (Function.update st.area (s.length : ℤ) nul)).1 with - | ⟨src, area⟩
  · exact .inl rfl
  · rcases htrim with hnone | ⟨a, ha, hlt⟩
    · rw [hresult] at hnone
      cases hnone
    · exact .inr ⟨a, List.mem_append_left _ ha, hlt⟩

theorem paramMatch_of_some {level : ℕ} {name : CString} {p : CfgParam}
    (h : matchingParam params level name = some p) :
    st.paramMatch params level name = (true, { st with curParam := some p }) := by
  unfold paramMatch
  rw [h]

theorem paramMatch_of_none {level : ℕ} {name : CString} (h : matchingParam params level name = none) :
    st.paramMatch params level name = (false, st) := by
  unfold paramMatch
  rw [h]

theorem enter_curLevel (name : CString) : (st.enter params name).curLevel = st.curLevel + 1 := by
  unfold enter paramMatch
  dsimp only [resetCharDataBuffer]
  split <;> split <;> rfl

/-- Going into an element whose value is taken. -/
theorem enter_value {name : CString} {p : CfgParam} {value : ℕ}
    (hmatch : matchingParam params st.curLevel name = some p) (hvalue : p.value = some value) :
    st.enter params name =
      { st with
        curLevel := st.curLevel + 1
        curParam := some p
        grabNextValue := true
        offs := 0
        overflow := false } := by
  unfold enter
  have hfound : st.resetCharDataBuffer.paramMatch params st.resetCharDataBuffer.curLevel name =
      (true, { st.resetCharDataBuffer with curParam := some p }) := paramMatch_of_some hmatch
  simp only [hfound, Option.bind_some, hvalue, Option.isSome_some, and_self, if_true]
  rfl

/-- Where the begin of an element which is recognised leads. -/
theorem run_startElement {start : RawParser} {before : List Callback} {name : CString} {p : CfgParam} {value : ℕ}
    (hrun : start.run bounds params (before ++ [.startElement name]) = some st)
    (hmatch : matchingParam params (st.curLevel - 1) name = some p) (hvalue : p.value = some value) :
    st.offs = 0 ∧ st.overflow = false ∧ st.grabNextValue = true ∧ st.curParam = some p := by
  rw [run, List.foldlM_append] at hrun
  obtain ⟨st₀, -, hlast⟩ := Option.bind_eq_some_iff.mp hrun
  rw [List.foldlM_cons] at hlast
  obtain ⟨st₁, hstart, hnil⟩ := Option.bind_eq_some_iff.mp hlast
  obtain rfl := Option.some.inj hnil
  obtain ⟨st₂, -, rfl⟩ := Option.map_eq_some_iff.mp hstart
  rw [enter_curLevel, Nat.add_sub_cancel] at hmatch
  rw [enter_value hmatch hvalue]
  exact ⟨rfl, rfl, rfl, rfl⟩

/-- For an element of blanks the empty value is stored, and nothing behind the terminator of the accumulated text is
read, exactly if all of its text was discarded; whatever came before. -/
theorem blank_value_iff {start : RawParser} {before : List Callback} {name : CString} {p : CfgParam} {value : ℕ}
    (hrun : start.run bounds params (before ++ [.startElement name]) = some st)
    (hmatch : matchingParam params (st.curLevel - 1) name = some p) (hvalue : p.value = some value)
    {pieces : List CString} (hblank : ∀ t ∈ pieces, ∀ c ∈ t, IsXmlBlank c) :
    let filled := pieces.foldl RawParser.charData st
    let stored := filled.processCharDataBuffer bounds
    ((∃ st', stored.1 = some st' ∧ st'.conf (value + if p.isPerCamera then st.curOffset else 0) = nul) ∧
      ∀ a ∈ stored.2, a ≤ filled.offs) ↔ Discarded pieces := by
  obtain ⟨hoffs, hoverflow, hgrab, hparam⟩ := run_startElement hrun hmatch hvalue
  have hempty : st.HoldsText [] := ⟨hoffs, by decide, fun i hi => absurd hi (Nat.not_lt_zero i)⟩
  obtain ⟨s, hholds, hs, hnil, hgrab', hparam', hoffset⟩ := hempty.pieces hgrab (by simp) hblank
  rw [hoverflow] at hnil
  simp only [Bool.false_eq_true, false_or, true_and] at hnil
  intro filled stored
  constructor
  · rintro ⟨⟨st', hstored, -⟩, hreads⟩
    by_contra hkept
    rcases processCharDataBuffer_blank bounds hholds hs (mt hnil.mp hkept) hgrab'
      (hparam'.trans hparam) hvalue with hnone | ⟨a, ha, hlt⟩
    · rw [hnone] at hstored
      cases hstored
    · exact absurd (hreads a ha) (not_le.mpr hlt)
  · intro hdiscarded
    have hzero : filled.offs = 0 := by rw [hholds.offs, hnil.mpr hdiscarded, List.length_nil]
    have hstored : stored = (some { filled with
        conf := Function.update filled.conf (value + if p.isPerCamera then st.curOffset else 0) nul }, []) := by
      have hnone : ¬ filled.offs > 0 := by omega
      simp only [stored, processCharDataBuffer, filled, hgrab', hparam', hparam, hvalue, hoffset] at hnone ⊢
      rw [if_neg hnone]
    rw [hstored]
    exact ⟨⟨_, rfl, Function.update_self _ _ _⟩, by simp⟩

/-- Memory in which one character stands below the buffer. -/
def charBelow (a : ℤ) : Char := if a = -1 then 'x' else nul

/-- A table with a name and a serial number. -/
def serialParams : List CfgParam :=
  [⟨1, false, "name".toList, some 100, 13⟩, ⟨1, false, "serial".toList, some 0, 13⟩]

/-- A parser before a file, with pages of memory around the buffer. -/
def rawStart : RawParser where
  curLevel := 0
  curOffset := 0
  curParam := none
  grabNextValue := false
  offs := 0
  overflow := false
  area := charBelow
  conf := fun _ => nul

/-- Addresses around the buffer. -/
def nearBuffer : Readable where
  lo := -8
  hi := 136
  lo_le := by decide
  le_hi := by decide

theorem blank_value_iff_empty :
    ∃ st, rawStart.run nearBuffer serialParams [.startElement "config".toList, .startElement "serial".toList] = some st ∧
      ((let filled := [([] : CString)].foldl RawParser.charData st
        let stored := filled.processCharDataBuffer nearBuffer
        ((∃ st', stored.1 = some st' ∧ st'.conf (0 + if false then st.curOffset else 0) = nul) ∧
          ∀ a ∈ stored.2, a ≤ filled.offs)) ↔ Discarded [[]]) := by
  refine ⟨_, rfl, ?_⟩
  exact @blank_value_iff nearBuffer serialParams _ rawStart [.startElement "config".toList] _
    ⟨1, false, "serial".toList, some 0, 13⟩ 0 rfl rfl rfl [[]] (by simp)

/-- A serial number of blanks becomes the end of the name which was read before it. -/
theorem blank_serial_leaks :
    (rawStart.run nearBuffer serialParams [.startElement "config".toList, .startElement "name".toList,
      .charData "ABCDEFGH".toList, .endElement "name".toList, .startElement "serial".toList,
      .charData "  ".toList, .endElement "serial".toList]).map (fun st => st.conf.text 0 12) =
        some "DEFGH".toList := by
  decide +kernel

/-! ## Texts that are empty or visible -/

variable (bounds) in
/-- Reading a text takes as much of it as is asked for, and looks no further than its terminator. -/
theorem readText_eq {area : ℤ → Char} {a : ℤ} {s : CString} (h : TextAt area a s) (hnul : nul ∉ s)
    (hend : a + s.length < bounds.hi) (n : ℕ) :
    (bounds.readText area n a).1 = some (s.take n) ∧
      ∀ b ∈ (bounds.readText area n a).2, a ≤ b ∧ b ≤ a + s.length := by
  induction n generalizing a s with
  | zero => exact ⟨rfl, by simp [Readable.readText]⟩
  | succ n ih =>
    rw [Readable.readText, if_neg (by omega)]
    cases s with
    | nil =>
      have hstop : area a = nul := by simpa using h.2
      rw [if_pos hstop]
      exact ⟨rfl, by simp⟩
    | cons c s =>
      have hc : area a = c := h.head
      have hvisible : c ≠ nul := fun hc' => hnul (hc' ▸ List.mem_cons_self)
      have hrest : TextAt area (a + 1) s := h.drop (l := [c])
      rw [List.length_cons, Nat.cast_succ] at hend
      obtain ⟨htext, hreads⟩ := ih hrest (fun hmem => hnul (List.mem_cons_of_mem _ hmem)) (by omega)
      simp only [hc, if_neg hvisible, htext]
      refine ⟨rfl, fun b hb => ?_⟩
      rw [List.length_cons, Nat.cast_succ]
      rcases List.mem_cons.mp hb with rfl | hb
      · omega
      · have := hreads b hb
        omega

/-- The blanks around a text with a visible character, and that what is between them begins and ends visibly. -/
theorem trim_split {s : CString} (hvisible : ∃ c ∈ s, ¬ isBlank c) :
    ∃ l r, s = l ++ (Reagent.trim s ++ r) ∧ (∀ c ∈ l, isBlank c = true) ∧ (∀ c ∈ r, isBlank c = true) ∧
      (∃ first rest, Reagent.trim s = first :: rest ∧ isBlank first = false) ∧
      ∃ init last, Reagent.trim s = init ++ [last] ∧ isBlank last = false := by
  have hne : Reagent.trim s ≠ [] := trim_ne_nil hvisible
  have hback : s.dropWhile isBlank = Reagent.trim s ++ (s.dropWhile isBlank).rtakeWhile isBlank :=
    List.rdropWhile_append_rtakeWhile.symm
  refine ⟨s.takeWhile isBlank, (s.dropWhile isBlank).rtakeWhile isBlank, ?_, fun c hc => List.mem_takeWhile_imp hc,
    fun c hc => List.mem_rtakeWhile_imp hc, ?_, ?_⟩
  · rw [← hback, List.takeWhile_append_dropWhile]
  · cases hcore : Reagent.trim s with
    | nil => exact absurd hcore hne
    | cons first rest =>
      have hhead : (s.dropWhile isBlank).head? = some first := by rw [hback, hcore]; rfl
      have hnot := List.head?_dropWhile_not isBlank s
      rw [hhead] at hnot
      exact ⟨first, rest, rfl, by simpa using hnot⟩
  · refine ⟨(Reagent.trim s).dropLast, (Reagent.trim s).getLast hne, (List.dropLast_append_getLast hne).symm, ?_⟩
    exact (Bool.not_eq_true _).mp (List.rdropWhile_last_not isBlank _ hne)

variable (bounds) in
/-- `trim` finds the trimmed text within the buffer. -/
theorem trim_visible {area : ℤ → Char} {s : CString} (h : TextAt area 0 s) (hnul : nul ∉ s)
    (hroom : s.length < charDataBufferSize) (hvisible : ∃ c ∈ s, ¬ isBlank c) :
    ∃ src area', (bounds.trim area).1 = some (src, area') ∧ TextAt area' src (Reagent.trim s) ∧
      0 ≤ src ∧ src + (Reagent.trim s).length ≤ s.length ∧
      ∀ a ∈ (bounds.trim area).2, 0 ≤ a ∧ a ≤ s.length := by
  obtain ⟨l, r, hsplit, hl, hr, ⟨first, rest, hfirst, hfvisible⟩, init, last, hlast, hlvisible⟩ := trim_split hvisible
  have hhi := bounds.le_hi
  have hlo := bounds.lo_le
  generalize Reagent.trim s = core at *
  have hlen : s.length = l.length + (core.length + r.length) := by
    rw [hsplit, List.length_append, List.length_append]
  have hcore : core.length = init.length + 1 := by rw [hlast, List.length_append, List.length_singleton]
  have hlength : (bounds.strlen area).1 = some (s.length : ℤ) := by
    rw [← zero_add (s.length : ℤ)]
    rw [← List.append_nil s] at h
    exact h.scanUp_eq (fun c hc => by simpa using fun hc' : c = nul => hnul (hc' ▸ hc)) rfl (by omega)
  have htext := h
  rw [hsplit] at htext
  have hleft : (scanUp area isBlank bounds.hi.toNat 0).1 = some (0 + l.length : ℤ) :=
    htext.scanUp_eq hl (by rwa [hfirst]) (by omega)
  have hright : (scanDown area isBlank ((s.length : ℤ) - bounds.lo).toNat s.length).1 =
      some (0 + l.length + core.length : ℤ) := by
    have hdown := htext.drop
    rw [hlast, List.append_assoc, List.singleton_append] at hdown
    have hscan := hdown.scanDown_eq hr hlvisible (n := ((s.length : ℤ) - bounds.lo).toNat) (by omega)
    rw [show (0 + l.length + init.length + 1 + r.length : ℤ) = s.length by omega] at hscan
    rw [hscan, hcore, Nat.cast_succ, add_assoc _ _ (1 : ℤ)]
  have hresult : bounds.trim area = (some ((0 + l.length : ℤ),
      Function.update area (0 + l.length + core.length : ℤ) nul), (bounds.strlen area).2 ++
        (scanUp area isBlank bounds.hi.toNat 0).2 ++
        (scanDown area isBlank ((s.length : ℤ) - bounds.lo).toNat s.length).2) := by
    unfold Readable.trim
    simp only [hlength]
    rw [if_neg (by omega)]
    simp only [hleft, hright]
  rw [hresult]
  refine ⟨_, _, rfl, htext.drop.cut, by omega, by omega, fun a ha => ?_⟩
  rcases List.mem_append.mp ha with ha | ha
  · rcases List.mem_append.mp ha with ha | ha
    · have := ((scanUp_stop hlength).2.2.2 a).mp ha
      omega
    · have := ((scanUp_stop hleft).2.2.2 a).mp ha
      omega
  · have := ((scanDown_stop hright).2.2.2 a).mp ha
    omega

/-- The variables which are the same on memory and on texts. -/
structure SameVariables (raw : RawParser) (st : XmlParser) : Prop where
  curLevel : raw.curLevel = st.curLevel
  curOffset : raw.curOffset = st.curOffset
  curParam : raw.curParam = st.curParam
  grabNextValue : raw.grabNextValue = st.grabNextValue
  overflow : raw.overflow = st.overflow
  conf : raw.conf = st.conf

/-- The parser on memory has the variables of the one on texts and holds its text. -/
structure Mirrors (raw : RawParser) (st : XmlParser) : Prop where
  vars : raw.SameVariables st
  text : raw.HoldsText st.charDataBuffer

/-- A text that is stored is empty or has a visible character. -/
def StoresVisible (st : XmlParser) : Callback → Prop
  | .charData _ => True
  | _ => nul ∉ st.charDataBuffer ∧ (st.charDataBuffer = [] ∨ ∃ c ∈ st.charDataBuffer, ¬ isBlank c)

theorem strncpy_take (m : Memory) (dst : ℕ) (src : CString) (n : ℕ) :
    m.strncpy dst (src.take n) n = m.strncpy dst src n := by
  funext a
  unfold Memory.strncpy
  split
  · rw [List.getElem?_take_of_lt (by omega)]
  · rfl

variable (bounds) in
/-- Storing an empty or a visible text is the same on memory as on texts, and reads nothing outside of the text. -/
theorem processCharDataBuffer_visible {raw : RawParser} {st : XmlParser} (h : raw.Mirrors st)
    (hnul : nul ∉ st.charDataBuffer) (hvisible : st.charDataBuffer = [] ∨ ∃ c ∈ st.charDataBuffer, ¬ isBlank c) :
    ∃ raw', (raw.processCharDataBuffer bounds).1 = some raw' ∧ raw'.SameVariables st.processCharDataBuffer ∧
      ∀ a ∈ (raw.processCharDataBuffer bounds).2, 0 ≤ a ∧ a ≤ raw.offs := by
  obtain ⟨⟨hlevel, hoffset, hparam, hgrab, hoverflow, hconf⟩, hoffs, hroom, hchars⟩ := h
  unfold processCharDataBuffer XmlParser.processCharDataBuffer
  rw [hgrab, hparam]
  cases hg : st.grabNextValue with
  | false => exact ⟨raw, rfl, ⟨hlevel, hoffset, hparam, hgrab, hoverflow, hconf⟩, by simp⟩
  | true =>
    cases hp : st.curParam with
    | none => exact ⟨raw, rfl, ⟨hlevel, hoffset, hparam, hgrab, hoverflow, hconf⟩, by simp⟩
    | some p =>
      dsimp only
      by_cases hpos : raw.offs > 0
      · rw [if_pos hpos]
        have hpos' : st.charDataBuffer.length > 0 := hoffs ▸ hpos
        have hsome : ∃ c ∈ st.charDataBuffer, ¬ isBlank c :=
          hvisible.resolve_left (List.length_pos_iff.mp hpos')
        have htext : TextAt (Function.update raw.area raw.offs nul) 0 st.charDataBuffer := by
          refine ⟨fun i hi => ?_, by rw [zero_add, ← hoffs, Function.update_self]⟩
          rw [zero_add, Function.update_of_ne (by omega), hchars i hi]
        cases hvalue : p.value with
        | none => exact ⟨_, rfl, ⟨hlevel, hoffset, rfl, rfl, hoverflow, hconf⟩, by simp⟩
        | some value =>
          obtain ⟨src, area', htrim, hat, hsrc, hend, hreads⟩ := trim_visible bounds htext hnul hroom hsome
          have hhi := bounds.le_hi
          obtain ⟨hread, hreads'⟩ := readText_eq bounds hat (fun hmem => hnul (mem_of_mem_trim hmem))
            (by omega) (p.maxValLen - 1)
          simp only [htrim, hread, Option.map_some, if_pos hpos', strncpy_take]
          refine ⟨_, rfl, ⟨hlevel, hoffset, rfl, rfl, hoverflow, by rw [hconf, hoffset]⟩, fun a ha => ?_⟩
          rcases List.mem_append.mp ha with ha | ha
          · have := hreads a ha
            omega
          · have := hreads' a ha
            omega
      · have hzero : ¬ st.charDataBuffer.length > 0 := hoffs ▸ hpos
        rw [if_neg hpos]
        simp only [if_neg hzero]
        refine ⟨_, rfl, ⟨hlevel, hoffset, rfl, rfl, hoverflow, ?_⟩, by simp⟩
        cases p.value with
        | none => exact hconf
        | some value =>
          change Function.update raw.conf (value + if p.isPerCamera = true then raw.curOffset else 0) nul =
            Function.update st.conf (value + if p.isPerCamera = true then st.curOffset else 0) nul
          rw [hconf, hoffset]

theorem holdsText_nil (h : st.offs = 0) : st.HoldsText [] :=
  ⟨h, by decide, fun i hi => absurd hi (Nat.not_lt_zero i)⟩

/-- Going into an element does the same to the variables, and forgets the text. -/
theorem enter_mirrors {raw : RawParser} {st : XmlParser} (h : raw.SameVariables st.processCharDataBuffer)
    (name : CString) : (raw.enter params name).Mirrors (st.startElement params name) := by
  obtain ⟨hlevel, hoffset, hparam, -, -, hconf⟩ := h
  unfold enter XmlParser.startElement
  generalize st.processCharDataBuffer = st at hlevel hoffset hparam hconf
  cases hmatch : matchingParam params st.curLevel name with
  | none =>
    have hraw : raw.resetCharDataBuffer.paramMatch params raw.resetCharDataBuffer.curLevel name =
        (false, raw.resetCharDataBuffer) := paramMatch_of_none (hlevel ▸ hmatch)
    have hst : st.resetCharDataBuffer.paramMatch params st.resetCharDataBuffer.curLevel name =
        (false, st.resetCharDataBuffer) := XmlParser.paramMatch_of_none hmatch
    simp only [hraw, hst, Bool.false_eq_true, false_and, if_false]
    exact ⟨⟨congrArg (· + 1) hlevel, hoffset, hparam, rfl, rfl, hconf⟩, holdsText_nil rfl⟩
  | some p =>
    have hraw : raw.resetCharDataBuffer.paramMatch params raw.resetCharDataBuffer.curLevel name =
        (true, { raw.resetCharDataBuffer with curParam := some p }) := paramMatch_of_some (hlevel ▸ hmatch)
    have hst : st.resetCharDataBuffer.paramMatch params st.resetCharDataBuffer.curLevel name =
        (true, { st.resetCharDataBuffer with curParam := some p }) := XmlParser.paramMatch_of_some hmatch
    simp only [hraw, hst, Option.bind_some, true_and]
    split
    · exact ⟨⟨congrArg (· + 1) hlevel, hoffset, rfl, rfl, rfl, hconf⟩, holdsText_nil rfl⟩
    · exact ⟨⟨congrArg (· + 1) hlevel, hoffset, rfl, rfl, rfl, hconf⟩, holdsText_nil rfl⟩

/-- Leaving an element does the same to the variables, and forgets the text. -/
theorem leave_mirrors {raw : RawParser} {st : XmlParser} (h : raw.SameVariables st.processCharDataBuffer)
    (name : CString) : (raw.leave params name).Mirrors (st.endElement params name) := by
  obtain ⟨hlevel, hoffset, hparam, -, -, hconf⟩ := h
  unfold leave XmlParser.endElement
  generalize st.processCharDataBuffer = st at hlevel hoffset hparam hconf
  dsimp only
  rw [hlevel]
  cases hmatch : matchingParam params (st.curLevel - 1) name with
  | none =>
    simp only [paramMatch_of_none hmatch, XmlParser.paramMatch_of_none hmatch, Bool.false_eq_true, false_and, if_false]
    exact ⟨⟨rfl, hoffset, hparam, rfl, rfl, hconf⟩, holdsText_nil rfl⟩
  | some p =>
    simp only [paramMatch_of_some hmatch, XmlParser.paramMatch_of_some hmatch, true_and]
    split
    · exact ⟨⟨rfl, by rw [← hoffset]; rfl, rfl, rfl, rfl, hconf⟩, holdsText_nil rfl⟩
    · exact ⟨⟨rfl, hoffset, rfl, rfl, rfl, hconf⟩, holdsText_nil rfl⟩

variable (bounds params) in
/-- Both parsers react alike as long as the texts they store are empty or visible. -/
theorem handle_mirrors {raw : RawParser} {st : XmlParser} (h : raw.Mirrors st) {cb : Callback}
    (hvisible : StoresVisible st cb) :
    ∃ raw', raw.handle bounds params cb = some raw' ∧ raw'.Mirrors (st.handle params cb) := by
  cases cb with
  | charData s =>
    refine ⟨_, rfl, ?_⟩
    obtain ⟨⟨hlevel, hoffset, hparam, hgrab, hoverflow, hconf⟩, htext⟩ := h
    change (raw.charData s).Mirrors (st.charData s)
    by_cases hkeep : raw.grabNextValue = true ∧ raw.overflow = false
    · have hkeep' : st.grabNextValue = true ∧ st.overflow = false := by rwa [← hgrab, ← hoverflow]
      by_cases hfits : s.length + st.charDataBuffer.length < charDataBufferSize
      · have hholds := htext.charData hkeep.1 hkeep.2 hfits
        unfold RawParser.charData at hholds ⊢
        unfold XmlParser.charData
        rw [if_pos hkeep, htext.offs, if_neg (by omega)] at hholds ⊢
        rw [if_pos hkeep', if_neg (by omega)]
        exact ⟨⟨hlevel, hoffset, hparam, hgrab, hoverflow, hconf⟩, hholds⟩
      · unfold RawParser.charData XmlParser.charData
        rw [if_pos hkeep, htext.offs, if_pos (by omega), if_pos hkeep', if_pos (by omega)]
        exact ⟨⟨hlevel, hoffset, hparam, hgrab, rfl, hconf⟩, rfl, htext.room, htext.chars⟩
    · have hkeep' : ¬ (st.grabNextValue = true ∧ st.overflow = false) := by rwa [← hgrab, ← hoverflow]
      unfold RawParser.charData XmlParser.charData
      rw [if_neg hkeep, if_neg hkeep']
      exact ⟨⟨hlevel, hoffset, hparam, hgrab, hoverflow, hconf⟩, htext⟩
  | startElement name =>
    obtain ⟨raw', hstored, hsame, -⟩ := processCharDataBuffer_visible bounds h hvisible.1 hvisible.2
    exact ⟨_, by rw [handle, startElement, hstored, Option.map_some], enter_mirrors hsame name⟩
  | endElement name =>
    obtain ⟨raw', hstored, hsame, -⟩ := processCharDataBuffer_visible bounds h hvisible.1 hvisible.2
    exact ⟨_, by rw [handle, endElement, hstored, Option.map_some], leave_mirrors hsame name⟩

/-- Through every sequence of callbacks in which only empty and visible texts are stored, the parser on memory goes
along with the one on texts. -/
theorem run_mirrors (bounds : Readable) {raw : RawParser} {st : XmlParser} (h : raw.Mirrors st) {cbs : List Callback}
    (hvisible : Guarded (XmlParser.handle params) StoresVisible st cbs) :
    ∃ raw', raw.run bounds params cbs = some raw' ∧ raw'.Mirrors (st.run params cbs) := by
  induction cbs generalizing raw st with
  | nil => exact ⟨raw, rfl, h⟩
  | cons cb cbs ih =>
    obtain ⟨raw₁, hhandle, hmirrors⟩ := handle_mirrors bounds params h hvisible.1
    obtain ⟨raw₂, hrun, hmirrors'⟩ := ih hmirrors hvisible.2
    exact ⟨raw₂, by rw [run, List.foldlM_cons, hhandle]; exact hrun, hmirrors'⟩

end RawParser

end RecordingAgent.Reagent
