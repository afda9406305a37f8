import RecordingAgent.Download.Segments

/-!
# When the segments of a download are right

The text of the segments is right when it divides the chunks that were found into stretches, one for
each segment, none of which spans a gap, with the times of its first and its last listed chunk. The
loop writes such a text exactly when the last chunk is listed, and what is written ahead for the next
listed chunk at a gap, or at the start, agrees with that chunk.
-/

namespace RecordingAgent.Download

open Foundation

variable (sys : DownloadSystem)

/-- The chunks which are listed. -/
def listed (l : List Chunk) : List Chunk := l.filter (·.path.isSome)

/-- The time of a chunk less its own offset. -/
def Chunk.startTime (c : Chunk) : BitVec 64 := BitVec.ofInt 64 c.epochTime - BitVec.ofInt 64 (c.offset sys)

/-- The time at which a chunk ends, less its own offset. -/
def Chunk.endTime (c : Chunk) : BitVec 64 :=
  BitVec.ofInt 64 c.epochTime - BitVec.ofInt 64 (c.offset sys) + BitVec.ofInt 64 (c.duration.tdiv 1000000)

/-- The end of a segment which lists chunks, the first of them perhaps before those given. -/
def segmentEndOf (first : Option Chunk) (chunks : List Chunk) : MetaItem :=
  .segmentEnd (((first.or chunks.head?).map (·.startTime sys)).getD 0) ((chunks.getLast?.map (·.endTime sys)).getD 0)

/-- The entries of chunks. -/
def entries (chunks : List Chunk) : List MetaItem := chunks.map fun c => c.entry (c.path.getD [])

/-- A segment for a stretch of the chunks that were found. -/
def segmentItems (stretch : List Chunk) : List MetaItem :=
  .segmentStart :: (entries (listed stretch) ++ [segmentEndOf sys none (listed stretch)])

/-- No gap lies between chunks that are listed, of which there may be some before. -/
def GapFree (before : Bool) (stretch : List Chunk) : Prop :=
  ∀ pre c post, stretch = pre ++ c :: post → c.gap = true →
    before = false ∧ listed (pre ++ [c]) = [] ∨ listed post = []

/-- The text is that of segments for successive stretches of the chunks that were found, each of which
lists a chunk and spans no gap. -/
def SegmentsRight (chunks : List Chunk) (items : List MetaItem) : Prop :=
  ∃ stretches : List (List Chunk), stretches.flatten = chunks ∧
    (∀ stretch ∈ stretches, listed stretch ≠ [] ∧ GapFree false stretch) ∧
    items = stretches.flatMap (segmentItems sys)

/-- The first chunk of a list which is listed, and those before it. -/
def FirstListed (l mid : List Chunk) (d : Chunk) : Prop :=
  d.path.isSome = true ∧ (∀ c ∈ mid, c.path = none) ∧ ∃ post, l = mid ++ d :: post

/-- Between a listed chunk and the next: without a gap behind the one there is none before the other,
and with a gap the start that was computed is that of the other. -/
def Joins (c : Chunk) (rest mid : List Chunk) (d : Chunk) : Prop :=
  if c.gap = true then
    ∀ next, rest.head? = some next →
      BitVec.ofInt 64 next.epochTime - BitVec.ofInt 64 (c.offset sys) = d.startTime sys
  else ∀ x ∈ mid, x.gap = false

/-- Every listed chunk joins the next. -/
def AllJoin (chunks : List Chunk) : Prop :=
  ∀ pre c rest, chunks = pre ++ c :: rest → c.path.isSome = true → ∀ mid d, FirstListed rest mid d → Joins sys c rest mid d

/-- The last chunk that was found is listed. -/
def LastListed (chunks : List Chunk) : Prop := ∃ c, chunks.getLast? = some c ∧ c.path.isSome = true

/-- The start computed for the first listed chunk is its own. -/
def FirstRight (chunks : List Chunk) : Prop :=
  ∀ first mid d, chunks.head? = some first → FirstListed chunks mid d →
    BitVec.ofInt 64 first.epochTime - timeoffsetFromChunkHeader sys d true = d.startTime sys

/-- What the loop writes while a segment is open. -/
def openItems (startTime : BitVec 64) : List Chunk → List MetaItem
  | [] => []
  | c :: rest =>
    match c.path with
    | none => openItems startTime rest
    | some path =>
      c.entry path ::
        if c.gap = true ∨ rest = [] then
          .segmentEnd startTime (c.endTime sys) ::
            match rest with
            | [] => []
            | next :: _ =>
              .segmentStart ::
                openItems (BitVec.ofInt 64 next.epochTime - BitVec.ofInt 64 (c.offset sys)) rest
        else openItems startTime rest

/-- What has to hold of the chunks that are left while a segment is open, the first chunk of which may
be listed already. -/
def OpenRight (first : Option Chunk) (startTime : BitVec 64) : List Chunk → Prop
  | [] => False
  | c :: rest =>
    if c.path = none then (c.gap = true → first = none) ∧ OpenRight first startTime rest
    else if c.gap = true ∨ rest = [] then
      startTime = (first.getD c).startTime sys ∧
        match rest with
        | [] => True
        | next :: _ => OpenRight none (BitVec.ofInt 64 next.epochTime - BitVec.ofInt 64 (c.offset sys)) rest
    else OpenRight (some (first.getD c)) startTime rest

/-- What is written while a segment is open is the rest of that segment, and segments. -/
def OpenSegments (first : Option Chunk) (l : List Chunk) (items : List MetaItem) : Prop :=
  ∃ stretch stretches, l = stretch ++ List.flatten stretches ∧ listed stretch ≠ [] ∧
    GapFree first.isSome stretch ∧ (∀ s ∈ stretches, listed s ≠ [] ∧ GapFree false s) ∧
    items = entries (listed stretch) ++ segmentEndOf sys first (listed stretch) ::
      stretches.flatMap (segmentItems sys)

@[simp] theorem listed_append (a b : List Chunk) : listed (a ++ b) = listed a ++ listed b := List.filter_append ..

theorem listed_cons_none {c : Chunk} (h : c.path = none) (l : List Chunk) : listed (c :: l) = listed l := by
  simp [listed, h]

theorem listed_cons_some {c : Chunk} {path : CString} (h : c.path = some path) (l : List Chunk) :
    listed (c :: l) = c :: listed l := by simp [listed, h]

theorem gapFree_cons_none {c : Chunk} (h : c.path = none) (before : Bool) (l : List Chunk) :
    GapFree before (c :: l) ↔ (c.gap = true → before = false ∨ listed l = []) ∧ GapFree before l := by
  constructor
  · intro hfree
    refine ⟨fun hgap => (hfree [] c l rfl hgap).imp_left And.left, fun pre x post hl hgap => ?_⟩
    have hx := hfree (c :: pre) x post (by rw [hl]; rfl) hgap
    rwa [List.cons_append, listed_cons_none h] at hx
  · rintro ⟨hfirst, hfree⟩ pre x post hl hgap
    cases pre with
    | nil =>
      obtain ⟨rfl, rfl⟩ := List.cons.inj hl
      exact (hfirst hgap).imp_left fun hbefore => ⟨hbefore, by rw [List.nil_append, listed_cons_none h]; rfl⟩
    | cons y pre =>
      obtain ⟨rfl, rfl⟩ := List.cons.inj hl
      rw [List.cons_append, listed_cons_none h]
      exact hfree pre x post rfl hgap

theorem gapFree_cons_some {c : Chunk} {path : CString} (h : c.path = some path) (before : Bool) (l : List Chunk) :
    GapFree before (c :: l) ↔ (c.gap = true → listed l = []) ∧ GapFree true l := by
  constructor
  · intro hfree
    refine ⟨fun hgap => ?_, fun pre x post hl hgap => ?_⟩
    · rcases hfree [] c l rfl hgap with hnone | hlast
      · rw [List.nil_append, listed_cons_some h] at hnone
        cases hnone.2
      · exact hlast
    · rcases hfree (c :: pre) x post (by rw [hl]; rfl) hgap with hnone | hlast
      · rw [List.cons_append, listed_cons_some h] at hnone
        cases hnone.2
      · exact Or.inr hlast
  · rintro ⟨hfirst, hfree⟩ pre x post hl hgap
    cases pre with
    | nil =>
      obtain ⟨rfl, rfl⟩ := List.cons.inj hl
      exact Or.inr (hfirst hgap)
    | cons y pre =>
      obtain ⟨rfl, rfl⟩ := List.cons.inj hl
      exact Or.inr ((hfree pre x post rfl hgap).resolve_left fun hnone => nomatch hnone.1)

/-- A stretch without listed chunks has no gap between such. -/
theorem gapFree_of_listed_eq_nil {l : List Chunk} (h : listed l = []) (before : Bool) : GapFree before l := by
  rintro pre c post rfl -
  refine Or.inr (List.filter_eq_nil_iff.mpr fun x hx => List.filter_eq_nil_iff.mp h x ?_)
  exact List.mem_append_right _ (List.mem_cons_of_mem _ hx)

/-- Chunks which are not listed may be put before a stretch. -/
theorem gapFree_append {pre : List Chunk} (h : listed pre = []) (l : List Chunk) :
    GapFree false (pre ++ l) ↔ GapFree false l := by
  induction pre with
  | nil => rfl
  | cons c pre ih =>
    cases hpath : c.path with
    | none =>
      rw [listed_cons_none hpath] at h
      rw [List.cons_append, gapFree_cons_none hpath, ih h]
      exact and_iff_right fun _ => Or.inl rfl
    | some path =>
      rw [listed_cons_some hpath] at h
      cases h

/-- The start written ahead for the chunk behind a gap, with the segment it opens. -/
def nextItems (c : Chunk) : List Chunk → List MetaItem
  | [] => []
  | next :: rest =>
    .segmentStart ::
      openItems sys (BitVec.ofInt 64 next.epochTime - BitVec.ofInt 64 (c.offset sys)) (next :: rest)

/-- What has to hold of the chunks behind a gap. -/
def NextRight (c : Chunk) : List Chunk → Prop
  | [] => True
  | next :: rest =>
    OpenRight sys none (BitVec.ofInt 64 next.epochTime - BitVec.ofInt 64 (c.offset sys)) (next :: rest)

theorem openItems_none {c : Chunk} (h : c.path = none) (startTime : BitVec 64) (rest : List Chunk) :
    openItems sys startTime (c :: rest) = openItems sys startTime rest := by
  conv_lhs => rw [openItems.eq_def]
  simp only [h]

theorem openItems_some {c : Chunk} {path : CString} (h : c.path = some path) (startTime : BitVec 64)
    (rest : List Chunk) :
    openItems sys startTime (c :: rest) = c.entry path ::
      if c.gap = true ∨ rest = [] then .segmentEnd startTime (c.endTime sys) :: nextItems sys c rest
      else openItems sys startTime rest := by
  conv_lhs => rw [openItems.eq_def]
  simp only [h]
  cases rest <;> rfl

theorem openRight_none {c : Chunk} (h : c.path = none) (first : Option Chunk) (startTime : BitVec 64)
    (rest : List Chunk) : OpenRight sys first startTime (c :: rest) ↔
      (c.gap = true → first = none) ∧ OpenRight sys first startTime rest := by
  conv_lhs => rw [OpenRight.eq_def]
  simp only [h, if_true]

theorem openRight_some {c : Chunk} {path : CString} (h : c.path = some path) (first : Option Chunk)
    (startTime : BitVec 64) (rest : List Chunk) : OpenRight sys first startTime (c :: rest) ↔
      if c.gap = true ∨ rest = [] then startTime = (first.getD c).startTime sys ∧ NextRight sys c rest
      else OpenRight sys (some (first.getD c)) startTime rest := by
  conv_lhs => rw [OpenRight.eq_def]
  simp only [h, reduceCtorEq, if_false]
  cases rest <;> rfl

/-- While a segment is open the next thing written is not its end. -/
theorem openItems_head (startTime start' end' : BitVec 64) (l : List Chunk) (items : List MetaItem) :
    openItems sys startTime l ≠ .segmentEnd start' end' :: items := by
  induction l with
  | nil => exact nofun
  | cons c rest ih =>
    unfold openItems
    split
    · exact ih
    · exact nofun

theorem entries_cons {c : Chunk} {path : CString} (h : c.path = some path) (l : List Chunk) :
    entries (c :: l) = c.entry path :: entries l := by simp [entries, h]

theorem entries_ne_segmentEnd {l : List Chunk} {items items' : List MetaItem} {start' end' : BitVec 64}
    (h : entries l ++ items = .segmentEnd start' end' :: items') : l = [] := by
  cases l with
  | nil => rfl
  | cons c l => cases h

/-- A listed chunk before a stretch becomes the first chunk of its segment unless there is one before. -/
theorem segmentEndOf_cons (first : Option Chunk) (c : Chunk) {l : List Chunk} (h : l ≠ []) :
    segmentEndOf sys first (c :: l) = segmentEndOf sys (some (first.getD c)) l := by
  cases l with
  | nil => exact absurd rfl h
  | cons d l => cases first <;> simp [segmentEndOf]

theorem segmentEndOf_singleton (first : Option Chunk) (c : Chunk) :
    segmentEndOf sys first [c] = .segmentEnd ((first.getD c).startTime sys) (c.endTime sys) := by
  cases first <;> rfl

/-- The items are right for the chunks behind a closed segment, the first of which may still belong to it
if they are not listed. -/
def ClosedSegments (rest : List Chunk) (items : List MetaItem) : Prop :=
  ∃ skipped stretches, rest = skipped ++ List.flatten stretches ∧ listed skipped = [] ∧
    (∀ s ∈ stretches, listed s ≠ [] ∧ GapFree false s) ∧ items = stretches.flatMap (segmentItems sys)

/-- Behind a closed segment another one is opened. -/
theorem closedSegments_cons {rest : List Chunk} {items : List MetaItem} :
    ClosedSegments sys rest (.segmentStart :: items) ↔ OpenSegments sys none rest items := by
  constructor
  · rintro ⟨skipped, stretches, hrest, hskipped, hstretches, hitems⟩
    cases stretches with
    | nil => cases hitems
    | cons stretch stretches =>
      obtain ⟨hlisted, hfree⟩ := hstretches stretch List.mem_cons_self
      refine ⟨skipped ++ stretch, stretches, ?_, ?_, (gapFree_append hskipped stretch).mpr hfree,
        fun s hs => hstretches s (List.mem_cons_of_mem _ hs), ?_⟩
      · rw [hrest, List.flatten_cons, List.append_assoc]
      · rw [listed_append, hskipped]
        exact hlisted
      · rw [List.flatMap_cons, segmentItems, List.cons_append, List.append_assoc] at hitems
        rw [listed_append, hskipped]
        exact (List.cons.inj hitems).2
  · rintro ⟨stretch, stretches, hrest, hlisted, hfree, hstretches, hitems⟩
    refine ⟨[], stretch :: stretches, hrest, rfl, List.forall_mem_cons.mpr ⟨⟨hlisted, hfree⟩, hstretches⟩, ?_⟩
    rw [List.flatMap_cons, segmentItems, List.cons_append, List.append_assoc, hitems]
    rfl

/-- A chunk which is not listed has no gap behind the first listed one. -/
theorem openSegments_cons_none {c : Chunk} (hpath : c.path = none) {first : Option Chunk} {rest : List Chunk}
    {items : List MetaItem} : OpenSegments sys first (c :: rest) items ↔
      (c.gap = true → first = none) ∧ OpenSegments sys first rest items := by
  constructor
  · rintro ⟨stretch, stretches, hl, hlisted, hfree, hrest⟩
    cases stretch with
    | nil => exact absurd rfl hlisted
    | cons d stretch =>
      obtain ⟨rfl, htail⟩ := List.cons.inj hl
      rw [listed_cons_none hpath] at hlisted hrest
      rw [gapFree_cons_none hpath] at hfree
      refine ⟨fun hgap => ?_, stretch, stretches, htail, hlisted, hfree.2, hrest⟩
      simpa [hlisted] using hfree.1 hgap
  · rintro ⟨hgap, stretch, stretches, hl, hlisted, hfree, hrest⟩
    refine ⟨c :: stretch, stretches, by rw [hl]; rfl, ?_, ?_, ?_⟩
    · rwa [listed_cons_none hpath]
    · rw [gapFree_cons_none hpath]
      exact ⟨fun h => Or.inl (by rw [hgap h]; rfl), hfree⟩
    · rwa [listed_cons_none hpath]

/-- The end of the segment behind a listed chunk. -/
theorem openSegments_cons_end {c : Chunk} {path : CString} (hpath : c.path = some path) {first : Option Chunk}
    {rest : List Chunk} {startTime : BitVec 64} {items : List MetaItem} :
    OpenSegments sys first (c :: rest) (c.entry path :: .segmentEnd startTime (c.endTime sys) :: items) ↔
      startTime = (first.getD c).startTime sys ∧ ClosedSegments sys rest items := by
  constructor
  · rintro ⟨stretch, stretches, hl, hlisted, -, hstretches, hitems⟩
    cases stretch with
    | nil => exact absurd rfl hlisted
    | cons d stretch =>
      obtain ⟨rfl, htail⟩ := List.cons.inj hl
      rw [listed_cons_some hpath, entries_cons hpath, List.cons_append] at hitems
      have hskipped : listed stretch = [] := entries_ne_segmentEnd (List.cons.inj hitems).2.symm
      rw [hskipped, segmentEndOf_singleton] at hitems
      obtain ⟨hend, hnext⟩ := List.cons.inj (List.cons.inj hitems).2
      exact ⟨(MetaItem.segmentEnd.inj hend).1, stretch, stretches, htail, hskipped, hstretches, hnext⟩
  · rintro ⟨hstart, skipped, stretches, hrest, hskipped, hstretches, hitems⟩
    refine ⟨c :: skipped, stretches, by rw [hrest]; rfl, ?_, ?_, hstretches, ?_⟩
    · rw [listed_cons_some hpath]
      exact List.cons_ne_nil _ _
    · rw [gapFree_cons_some hpath]
      exact ⟨fun _ => hskipped, gapFree_of_listed_eq_nil hskipped _⟩
    · rw [listed_cons_some hpath, hskipped, segmentEndOf_singleton, ← hstart, entries_cons hpath, ← hitems]
      rfl

/-- A listed chunk without a gap behind which the segment stays open. -/
theorem openSegments_cons_some {c : Chunk} {path : CString} (hpath : c.path = some path) (hgap : c.gap ≠ true)
    {first : Option Chunk} {rest : List Chunk} {items : List MetaItem}
    (hopen : ∀ startTime endTime items', items ≠ .segmentEnd startTime endTime :: items') :
    OpenSegments sys first (c :: rest) (c.entry path :: items) ↔
      OpenSegments sys (some (first.getD c)) rest items := by
  constructor
  · rintro ⟨stretch, stretches, hl, hlisted, hfree, hstretches, hitems⟩
    cases stretch with
    | nil => exact absurd rfl hlisted
    | cons d stretch =>
      obtain ⟨rfl, htail⟩ := List.cons.inj hl
      rw [listed_cons_some hpath, entries_cons hpath, List.cons_append] at hitems
      have hmore : listed stretch ≠ [] := by
        intro hnone
        rw [hnone] at hitems
        exact hopen _ _ _ (List.cons.inj hitems).2
      rw [segmentEndOf_cons sys first c hmore] at hitems
      rw [gapFree_cons_some hpath] at hfree
      exact ⟨stretch, stretches, htail, hmore, hfree.2, hstretches, (List.cons.inj hitems).2⟩
  · rintro ⟨stretch, stretches, hl, hlisted, hfree, hstretches, hitems⟩
    refine ⟨c :: stretch, stretches, by rw [hl]; rfl, ?_, ?_, hstretches, ?_⟩
    · rw [listed_cons_some hpath]
      exact List.cons_ne_nil _ _
    · rw [gapFree_cons_some hpath]
      exact ⟨fun h => absurd h hgap, hfree⟩
    · rw [listed_cons_some hpath, entries_cons hpath, segmentEndOf_cons sys first c hlisted, hitems]
      rfl

/-- What is written while a segment is open is right exactly when what has to hold does. -/
theorem openSegments_iff (l : List Chunk) (first : Option Chunk) (startTime : BitVec 64) :
    OpenSegments sys first l (openItems sys startTime l) ↔ OpenRight sys first startTime l := by
  induction l generalizing first startTime with
  | nil =>
    refine iff_of_false ?_ id
    rintro ⟨stretch, stretches, hl, hlisted, -⟩
    exact hlisted (by rw [(List.append_eq_nil_iff.mp hl.symm).1]; rfl)
  | cons c rest ih =>
    cases hpath : c.path with
    | none => rw [openItems_none sys hpath, openRight_none sys hpath, openSegments_cons_none sys hpath, ih]
    | some path =>
      rw [openItems_some sys hpath, openRight_some sys hpath]
      by_cases hclose : c.gap = true ∨ rest = []
      · rw [if_pos hclose, if_pos hclose, openSegments_cons_end sys hpath]
        refine and_congr_right fun _ => ?_
        cases rest with
        | nil => exact iff_of_true ⟨[], [], rfl, rfl, nofun, rfl⟩ trivial
        | cons next rest => exact (closedSegments_cons sys).trans (ih _ _)
      · obtain ⟨hgap, -⟩ := not_or.mp hclose
        rw [if_neg hclose, if_neg hclose, openSegments_cons_some sys hpath hgap (openItems_head sys _ · · _ ·), ih]

/-- A text that starts with an open segment is right exactly when the rest of it is. -/
theorem segmentsRight_iff_openSegments {chunks : List Chunk} {items : List MetaItem} :
    SegmentsRight sys chunks (.segmentStart :: items) ↔ OpenSegments sys none chunks items := by
  rw [← closedSegments_cons]
  constructor
  · rintro ⟨stretches, hchunks, hstretches, hitems⟩
    exact ⟨[], stretches, hchunks.symm, rfl, hstretches, hitems⟩
  · intro h
    obtain ⟨stretch, stretches, hchunks, hlisted, hfree, hstretches, hitems⟩ := (closedSegments_cons sys).mp h
    refine ⟨stretch :: stretches, hchunks.symm, List.forall_mem_cons.mpr ⟨⟨hlisted, hfree⟩, hstretches⟩, ?_⟩
    rw [List.flatMap_cons, segmentItems, List.cons_append, List.append_assoc, hitems]
    rfl

theorem firstListed_cons_none {c : Chunk} (h : c.path = none) {rest mid : List Chunk} {d : Chunk} :
    FirstListed (c :: rest) mid d ↔ ∃ mid', mid = c :: mid' ∧ FirstListed rest mid' d := by
  constructor
  · rintro ⟨hd, hmid, post, hl⟩
    cases mid with
    | nil =>
      obtain ⟨rfl, -⟩ := List.cons.inj hl
      rw [h] at hd
      cases hd
    | cons x mid =>
      obtain ⟨rfl, htail⟩ := List.cons.inj hl
      exact ⟨mid, rfl, hd, fun y hy => hmid y (List.mem_cons_of_mem _ hy), post, htail⟩
  · rintro ⟨mid', rfl, hd, hmid, post, rfl⟩
    exact ⟨hd, List.forall_mem_cons.mpr ⟨h, hmid⟩, post, rfl⟩

theorem firstListed_cons_some {c : Chunk} {path : CString} (h : c.path = some path) {rest mid : List Chunk}
    {d : Chunk} : FirstListed (c :: rest) mid d ↔ mid = [] ∧ d = c := by
  constructor
  · rintro ⟨hd, hmid, post, hl⟩
    cases mid with
    | nil => exact ⟨rfl, (List.cons.inj hl).1.symm⟩
    | cons x mid =>
      obtain ⟨rfl, -⟩ := List.cons.inj hl
      have hnone := hmid c List.mem_cons_self
      rw [h] at hnone
      cases hnone
  · rintro ⟨rfl, rfl⟩
    exact ⟨by rw [h]; rfl, nofun, rest, rfl⟩

theorem lastListed_cons {c : Chunk} {rest : List Chunk} :
    LastListed (c :: rest) ↔ (rest = [] ∧ c.path.isSome = true) ∨ LastListed rest := by
  cases rest with
  | nil => simp [LastListed]
  | cons next rest => simp [LastListed, List.getLast?_cons_cons]

/-- If the last chunk is listed there is a first that is. -/
theorem exists_firstListed {l : List Chunk} (h : LastListed l) : ∃ mid d, FirstListed l mid d := by
  induction l with
  | nil =>
    obtain ⟨c, hc, -⟩ := h
    cases hc
  | cons c rest ih =>
    cases hpath : c.path with
    | none =>
      have hrest : LastListed rest := (lastListed_cons.mp h).resolve_left fun hlast => by simp [hpath] at hlast
      obtain ⟨mid, d, hfirst⟩ := ih hrest
      exact ⟨c :: mid, d, (firstListed_cons_none hpath).mpr ⟨mid, rfl, hfirst⟩⟩
    | some path => exact ⟨[], c, (firstListed_cons_some hpath).mpr ⟨rfl, rfl⟩⟩

theorem allJoin_cons {c : Chunk} {rest : List Chunk} : AllJoin sys (c :: rest) ↔
    (c.path.isSome = true → ∀ mid d, FirstListed rest mid d → Joins sys c rest mid d) ∧ AllJoin sys rest := by
  constructor
  · intro h
    refine ⟨h [] c rest rfl, fun pre x post hl => ?_⟩
    exact h (c :: pre) x post (by rw [hl]; rfl)
  · rintro ⟨hfirst, hrest⟩ pre x post hl
    cases pre with
    | nil =>
      obtain ⟨rfl, rfl⟩ := List.cons.inj hl
      exact hfirst
    | cons y pre =>
      obtain ⟨rfl, rfl⟩ := List.cons.inj hl
      exact hrest pre x post rfl

/-- What has to hold while a segment is open, said of the chunks that follow each other in it. -/
def JoinedFrom (first : Option Chunk) (startTime : BitVec 64) (l : List Chunk) : Prop :=
  LastListed l ∧
    (∀ mid d, FirstListed l mid d →
      startTime = (first.getD d).startTime sys ∧ (first.isSome = true → ∀ x ∈ mid, x.gap = false)) ∧
    AllJoin sys l

/-- A chunk which is not listed has no gap behind the first listed one. -/
theorem joinedFrom_cons_none {c : Chunk} (hpath : c.path = none) {first : Option Chunk} {startTime : BitVec 64}
    {rest : List Chunk} : JoinedFrom sys first startTime (c :: rest) ↔
      (c.gap = true → first = none) ∧ JoinedFrom sys first startTime rest := by
  rw [JoinedFrom, JoinedFrom, lastListed_cons, allJoin_cons, hpath]
  constructor
  · rintro ⟨hlast, hfirst, -, hjoin⟩
    have hlast : LastListed rest := hlast.resolve_left fun h => nomatch h.2
    have hrest : ∀ mid d, FirstListed rest mid d → startTime = (first.getD d).startTime sys ∧
        (first.isSome = true → ∀ x ∈ c :: mid, x.gap = false) := fun mid d hd =>
      hfirst (c :: mid) d ((firstListed_cons_none hpath).mpr ⟨mid, rfl, hd⟩)
    refine ⟨fun hgap => ?_, hlast, fun mid d hd => ?_, hjoin⟩
    · obtain ⟨mid, d, hd⟩ := exists_firstListed hlast
      cases first with
      | none => rfl
      | some f =>
        have hc := (hrest mid d hd).2 rfl c List.mem_cons_self
        rw [hgap] at hc
        cases hc
    · obtain ⟨hstart, hfree⟩ := hrest mid d hd
      exact ⟨hstart, fun hsome x hx => hfree hsome x (List.mem_cons_of_mem _ hx)⟩
  · rintro ⟨hgap, hlast, hfirst, hjoin⟩
    refine ⟨Or.inr hlast, fun mid d hmid => ?_, nofun, hjoin⟩
    obtain ⟨mid', rfl, hd⟩ := (firstListed_cons_none hpath).mp hmid
    obtain ⟨hstart, hfree⟩ := hfirst mid' d hd
    refine ⟨hstart, fun hsome => List.forall_mem_cons.mpr ⟨?_, hfree hsome⟩⟩
    by_contra hc
    rw [hgap (by simpa using hc)] at hsome
    cases hsome

/-- A listed chunk is the first of its segment or behind it, and joins the next. -/
theorem joinedFrom_cons_some {c : Chunk} {path : CString} (hpath : c.path = some path) {first : Option Chunk}
    {startTime : BitVec 64} {rest : List Chunk} : JoinedFrom sys first startTime (c :: rest) ↔
      startTime = (first.getD c).startTime sys ∧ (rest = [] ∨ LastListed rest) ∧
        (∀ mid d, FirstListed rest mid d → Joins sys c rest mid d) ∧ AllJoin sys rest := by
  have hsome : c.path.isSome = true := by rw [hpath]; rfl
  rw [JoinedFrom, lastListed_cons, allJoin_cons]
  constructor
  · rintro ⟨hlast, hfirst, hjoins, hjoin⟩
    exact ⟨(hfirst [] c ((firstListed_cons_some hpath).mpr ⟨rfl, rfl⟩)).1, hlast.imp_left And.left, hjoins hsome, hjoin⟩
  · rintro ⟨hstart, hlast, hjoins, hjoin⟩
    refine ⟨hlast.imp_left fun h => ⟨h, hsome⟩, fun mid d hd => ?_, fun _ => hjoins, hjoin⟩
    obtain ⟨rfl, rfl⟩ := (firstListed_cons_some hpath).mp hd
    exact ⟨hstart, fun _ => nofun⟩

theorem joins_of_gap {c next : Chunk} {rest mid : List Chunk} {d : Chunk} (hgap : c.gap = true) :
    Joins sys c (next :: rest) mid d ↔
      BitVec.ofInt 64 next.epochTime - BitVec.ofInt 64 (c.offset sys) = d.startTime sys := by
  rw [Joins, if_pos hgap]
  simp

theorem joins_of_no_gap {c : Chunk} {rest mid : List Chunk} {d : Chunk} (hgap : c.gap ≠ true) :
    Joins sys c rest mid d ↔ ∀ x ∈ mid, x.gap = false := by
  rw [Joins, if_neg hgap]

/-- What has to hold while a segment is open holds exactly when its chunks join. -/
theorem openRight_iff (l : List Chunk) (first : Option Chunk) (startTime : BitVec 64) :
    OpenRight sys first startTime l ↔ JoinedFrom sys first startTime l := by
  induction l generalizing first startTime with
  | nil =>
    refine iff_of_false id fun h => ?_
    obtain ⟨c, hc, -⟩ := h.1
    cases hc
  | cons c rest ih =>
    cases hpath : c.path with
    | none => rw [openRight_none sys hpath, joinedFrom_cons_none sys hpath, ih]
    | some path =>
      rw [openRight_some sys hpath, joinedFrom_cons_some sys hpath]
      cases rest with
      | nil =>
        have hnone : ∀ mid d, ¬ FirstListed [] mid d := by
          rintro mid d ⟨-, -, post, hl⟩
          exact absurd hl.symm (by simp)
        have hjoin : AllJoin sys [] := fun pre x post hl => absurd hl.symm (by simp)
        rw [if_pos (Or.inr rfl)]
        exact ⟨fun h => ⟨h.1, Or.inl rfl, fun mid d hd => absurd hd (hnone mid d), hjoin⟩, fun h => ⟨h.1, trivial⟩⟩
      | cons next rest =>
        have hrest : (next :: rest = [] ∨ LastListed (next :: rest)) ↔ LastListed (next :: rest) :=
          or_iff_right (List.cons_ne_nil _ _)
        by_cases hgap : c.gap = true
        · simp only [joins_of_gap sys hgap]
          rw [if_pos (Or.inl hgap), NextRight, ih, JoinedFrom, hrest]
          constructor
          · rintro ⟨hstart, hlast, hfirst, hjoin⟩
            exact ⟨hstart, hlast, fun mid d hd => (hfirst mid d hd).1, hjoin⟩
          · rintro ⟨hstart, hlast, hfirst, hjoin⟩
            exact ⟨hstart, hlast, fun mid d hd => ⟨hfirst mid d hd, nofun⟩, hjoin⟩
        · simp only [joins_of_no_gap sys hgap]
          rw [if_neg (by simp [hgap]), ih, JoinedFrom, hrest]
          constructor
          · rintro ⟨hlast, hfirst, hjoin⟩
            obtain ⟨mid, d, hd⟩ := exists_firstListed hlast
            exact ⟨(hfirst mid d hd).1, hlast, fun mid d hd => (hfirst mid d hd).2 rfl, hjoin⟩
          · rintro ⟨hstart, hlast, hfirst, hjoin⟩
            exact ⟨hlast, fun mid d hd => ⟨hstart, fun _ => hfirst mid d hd⟩, hjoin⟩

theorem insertChunks_none {c : Chunk} (h : c.path = none) (st : SegState) (rest : List Chunk) :
    insertChunks sys st (c :: rest) = insertChunks sys st rest := by
  conv_lhs => rw [insertChunks]
  simp only [h]

/-- A listed chunk in a loop that ends well: its entry, with what opens and closes segments around it. -/
theorem insertChunks_some {c : Chunk} {path : CString} (h : c.path = some path) {st : SegState} {rest : List Chunk}
    (hok : (insertChunks sys st (c :: rest)).1 = .okFull) :
    let opened := st.openFirst sys c
    let closed := { opened.1 with cc := st.cc + 1 }.closeSegment sys c rest
    (insertChunks sys closed.1 rest).1 = .okFull ∧
      (insertChunks sys st (c :: rest)).2 =
        opened.2 ++ c.entry path :: (closed.2 ++ (insertChunks sys closed.1 rest).2) := by
  intro opened closed
  have hstep : insertChunks sys st (c :: rest) =
      if sys.copyFile path then ((insertChunks sys closed.1 rest).1,
        opened.2 ++ c.entry path :: closed.2 ++ (insertChunks sys closed.1 rest).2)
      else (.internalErr, opened.2 ++ c.entry path :: closed.2) := by
    conv_lhs => rw [insertChunks]
    simp only [h]
    rfl
  rw [hstep] at hok ⊢
  split at hok
  next hcopy =>
    rw [if_pos hcopy]
    exact ⟨hok, by rw [List.append_assoc, List.cons_append]⟩
  next => cases hok

/-- Behind an entry, either the segment goes on, or it ends and the next one starts. -/
theorem closeSegment_items (st : SegState) (c : Chunk) (rest : List Chunk) :
    (st.closeSegment sys c rest).1.cc = st.cc ∧
      (st.closeSegment sys c rest).2 ++ openItems sys (st.closeSegment sys c rest).1.startTime rest =
        if c.gap = true ∨ rest = [] then .segmentEnd st.startTime (c.endTime sys) :: nextItems sys c rest
        else openItems sys st.startTime rest := by
  unfold SegState.closeSegment
  split
  · cases rest with
    | nil => exact ⟨rfl, rfl⟩
    | cons next rest => exact ⟨rfl, rfl⟩
  · exact ⟨rfl, rfl⟩

/-- Once a segment is open, a loop that ends well writes what goes on with it. -/
theorem insertChunks_open {l : List Chunk} {st : SegState} (hcc : st.cc ≠ 0)
    (hok : (insertChunks sys st l).1 = .okFull) : (insertChunks sys st l).2 = openItems sys st.startTime l := by
  induction l generalizing st with
  | nil => rfl
  | cons c rest ih =>
    cases hpath : c.path with
    | none =>
      rw [insertChunks_none sys hpath] at hok ⊢
      rw [openItems_none sys hpath]
      exact ih hcc hok
    | some path =>
      obtain ⟨hrest, hitems⟩ := insertChunks_some sys hpath hok
      simp only [SegState.openFirst, if_neg hcc] at hrest hitems
      obtain ⟨hcc', hclose⟩ := closeSegment_items sys { st with cc := st.cc + 1 } c rest
      rw [hitems, ih (by rw [hcc']; exact Nat.succ_ne_zero _) hrest, hclose, openItems_some sys hpath]
      rfl

/-- The start of the first segment in a loop that ends well. -/
theorem insertChunks_first {l : List Chunk} {st : SegState} (hcc : st.cc = 0)
    (hok : (insertChunks sys st l).1 = .okFull) :
    ∃ mid d, FirstListed l mid d ∧ (insertChunks sys st l).2 =
      .segmentStart :: openItems sys (st.s - timeoffsetFromChunkHeader sys d true) l := by
  induction l with
  | nil =>
    rw [insertChunks, if_pos hcc] at hok
    cases hok
  | cons c rest ih =>
    cases hpath : c.path with
    | none =>
      rw [insertChunks_none sys hpath] at hok ⊢
      obtain ⟨mid, d, hfirst, hitems⟩ := ih hok
      exact ⟨c :: mid, d, (firstListed_cons_none hpath).mpr ⟨mid, rfl, hfirst⟩,
        by rw [hitems, openItems_none sys hpath]⟩
    | some path =>
      obtain ⟨hrest, hitems⟩ := insertChunks_some sys hpath hok
      refine ⟨[], c, (firstListed_cons_some hpath).mpr ⟨rfl, rfl⟩, ?_⟩
      simp only [SegState.openFirst, if_pos hcc] at hrest hitems
      obtain ⟨hcc', hclose⟩ := closeSegment_items sys
        ⟨st.cc + 1, st.s - timeoffsetFromChunkHeader sys c true, st.s - timeoffsetFromChunkHeader sys c true⟩ c rest
      rw [hitems, insertChunks_open sys (by rw [hcc']; exact Nat.succ_ne_zero _) hrest, hclose,
        openItems_some sys hpath]
      rfl

/-- The first listed chunk is one. -/
theorem FirstListed.unique {l mid mid' : List Chunk} {d d' : Chunk} (h : FirstListed l mid d)
    (h' : FirstListed l mid' d') : mid = mid' ∧ d = d' := by
  induction l generalizing mid mid' with
  | nil =>
    obtain ⟨-, -, post, hl⟩ := h
    exact absurd hl.symm (by simp)
  | cons c rest ih =>
    cases hpath : c.path with
    | none =>
      obtain ⟨m, rfl, hm⟩ := (firstListed_cons_none hpath).mp h
      obtain ⟨m', rfl, hm'⟩ := (firstListed_cons_none hpath).mp h'
      obtain ⟨rfl, rfl⟩ := ih hm hm'
      exact ⟨rfl, rfl⟩
    | some path =>
      obtain ⟨rfl, rfl⟩ := (firstListed_cons_some hpath).mp h
      obtain ⟨rfl, rfl⟩ := (firstListed_cons_some hpath).mp h'
      exact ⟨rfl, rfl⟩

/-- What a successful call writes. -/
theorem insertChunkMetadata_items {chunks : List Chunk} (hok : (insertChunkMetadata sys chunks).1 = .okFull) :
    ∃ first mid d, chunks.head? = some first ∧ FirstListed chunks mid d ∧
      (insertChunkMetadata sys chunks).2 = .segmentStart ::
        openItems sys (BitVec.ofInt 64 first.epochTime - timeoffsetFromChunkHeader sys d true) chunks := by
  unfold insertChunkMetadata at hok ⊢
  cases chunks with
  | nil => cases hok
  | cons first rest =>
    simp only at hok ⊢
    split at hok
    next hfits =>
      rw [if_pos hfits]
      obtain ⟨mid, d, hfirst, hitems⟩ := insertChunks_first sys rfl hok
      exact ⟨first, mid, d, rfl, hfirst, hitems⟩
    next => cases hok

/-- When the chunks of a download were inserted, the text of the segments is right exactly when the last
chunk that was found is listed, every listed chunk joins the next, and the first start is right. -/
theorem segmentsRight_insertChunkMetadata_iff (chunks : List Chunk)
    (hok : (insertChunkMetadata sys chunks).1 = .okFull) :
    SegmentsRight sys chunks (insertChunkMetadata sys chunks).2 ↔
      LastListed chunks ∧ FirstRight sys chunks ∧ AllJoin sys chunks := by
  obtain ⟨first, mid, d, hhead, hfirst, hitems⟩ := insertChunkMetadata_items sys hok
  rw [hitems, segmentsRight_iff_openSegments, openSegments_iff, openRight_iff, JoinedFrom]
  refine and_congr_right fun _ => and_congr_left fun _ => ?_
  constructor
  · intro h first' mid' d' hhead' hd'
    obtain rfl := Option.some.inj (hhead.symm.trans hhead')
    obtain ⟨rfl, rfl⟩ := hfirst.unique hd'
    exact (h _ _ hd').1
  · intro h mid' d' hd'
    obtain ⟨rfl, rfl⟩ := hfirst.unique hd'
    exact ⟨h first _ _ hhead hd', nofun⟩

/-- Two chunks with a gap between them. -/
theorem segmentsRight_insertChunkMetadata_gap :
    let sys : DownloadSystem := ⟨0, fun _ => 0, fun _ => true, fun _ => true⟩
    let chunks : List Chunk := [⟨1700000000, 60000000, true, some "/chm/a".toList, ['G'], 5, [], 1⟩,
      ⟨1700000600, 60000000, false, some "/chm/b".toList, ['G'], 5, [], 1⟩]
    SegmentsRight sys chunks (insertChunkMetadata sys chunks).2 ↔
      LastListed chunks ∧ FirstRight sys chunks ∧ AllJoin sys chunks :=
  segmentsRight_insertChunkMetadata_iff _ _ (by decide +kernel)

/-- When the file of the last chunk cannot be found, the segment is never ended. -/
theorem segmentsRight_not_lastMissing : ¬ ∀ (sys : DownloadSystem) (chunks : List Chunk),
    (insertChunkMetadata sys chunks).1 = .okFull → SegmentsRight sys chunks (insertChunkMetadata sys chunks).2 := by
  intro h
  have hok : (insertChunkMetadata ⟨0, fun _ => 0, fun _ => true, fun _ => true⟩
      [⟨1700000000, 60000000, false, some "/chm/a".toList, ['G'], 0, [], 1⟩,
        ⟨1700000060, 60000000, false, none, ['G'], 0, [], 1⟩]).1 = .okFull := by decide +kernel
  obtain ⟨_, _, _, _, _, hitems⟩ := insertChunkMetadata_items _ hok
  have hright := h _ _ hok
  rw [hitems, segmentsRight_iff_openSegments, openSegments_iff, openRight_iff] at hright
  obtain ⟨c, hlast, hlisted⟩ := hright.1
  obtain rfl := Option.some.inj hlast
  cases hlisted

end RecordingAgent.Download
