import RecordingAgent.Foundation.LuaSplice
import RecordingAgent.Reagent.StatusRange

/-!
# What Lua makes of the status

The locomotive identifier and the names of the cameras are put into the statements as they are, inside of double quotes
within single quotes. Lua gets the run-time values out of a statement exactly if the text ends neither of the strings
and escapes nothing; a name must also have lost its padding and nothing else.
-/

namespace RecordingAgent.Reagent

open Foundation
open Foundation.Lua

/-- The integers of the media record. -/
def mediaInts (m : MediaInfo) : List (CString × ℤ) :=
  [("is_chm_ready".toList, m.isChmReady.toInt), ("is_rssd_ready".toList, m.isRssdReady.toInt),
    ("n_cams_recording".toList, m.nCamsRecording)]

/-- The integers of a camera. -/
def cameraInts (r : CamRuntime) : List (CString × ℤ) :=
  [("is_assigned".toList, r.isAssigned.toInt), ("is_online".toList, r.isOnline.toInt),
    ("resolution".toList, r.resolution), ("compression".toList, r.compression), ("frame_rate".toList, r.frameRate),
    ("recording_mode_flags".toList, r.recordingModeFlags.toInt),
    ("recording_status_flags".toList, r.recordingStatusFlags.toInt),
    ("commanded_paused".toList, r.commandedPaused.toInt)]

/-- Fields with integers. -/
def intFields (values : List (CString × ℤ)) : List (CString × Const) := values.map fun v => (v.1, .int v.2)

/-- The table with the values of the media record. -/
def mediaFields (m : MediaInfo) : List (CString × Const) :=
  intFields (mediaInts m) ++ [("loco_id".toList, .string m.locoId)]

/-- The field of `shared` for a camera. -/
def cameraKey (i : ℕ) : CString := "sCam".toList ++ signedDigits (i + 1)

/-- The field that the statement of the first camera sets before. -/
def countAssigned (nCameras i : ℕ) : List (CString × CString × Value) :=
  if i = 0 then [("shared".toList, "n_cameras".toList, .const (.int nCameras))] else []

/-- A statement sets `shared.sMedia` only, to a chunk which returns the values of the media record and does nothing
else. -/
def MediaExact (m : MediaInfo) (chunk : CString) : Prop :=
  ∃ innerText, exec chunk = some ⟨[("shared".toList, "sMedia".toList, .const (.string innerText))], []⟩ ∧
    exec innerText = some ⟨[], [.table (mediaFields m)]⟩

/-- A statement sets the field of a camera, and the number of cameras if it is the first, and no others. It sets the
camera's to a chunk which returns the values of the camera and its name and does nothing else. -/
def CameraExact (nCameras i : ℕ) (r : CamRuntime) (name chunk : CString) : Prop :=
  ∃ innerText, exec chunk = some ⟨countAssigned nCameras i ++
      [("shared".toList, cameraKey i, .const (.string innerText))], []⟩ ∧
    exec innerText = some ⟨[], [.table (intFields (cameraInts r)), .const (.string name)]⟩

/-- A camera's name without its padding. -/
def unpadded (name : CString) : CString := name.rdropWhile fun c => c = '_'

/-- The name has a character that is no padding, and unless this is its first, the last one is neither a blank nor
beyond ASCII. -/
def KeptWhole (name : CString) : Prop :=
  unpadded name ≠ [] ∧ ∀ c ∈ (unpadded name).tail.getLast?, isTruncated c = false

instance (name : CString) : Decidable (KeptWhole name) := @instDecidableAnd _ _ _ (Option.decidableForallMem _)

/-- Rows with integers. -/
def intAttrs (values : List (CString × ℤ)) : List Attr := values.map fun v => (v.1, .int v.2)

/-! ## The tokens of the statements -/

/-- The printed rows are the tokens of the fields. -/
theorem lex_attrPieces (quote : Char) {first : CString} {before : List Token}
    (hfirst : ∀ cs, lex 0 (first ++ cs) = (lex 0 cs).map (before ++ ·)) {values : List (CString × ℤ)} (hne : values ≠ [])
    (hvalues : ∀ v ∈ values, isName v.1 = true ∧ v.2.natAbs < 2 ^ 63) {rest : CString} (hrest : Delimited rest) :
    lex 0 ((attrPieces quote first (intAttrs values)).flatten ++ rest) =
      (lex 0 rest).map (before ++ fieldTokens (intFields values) ++ ·) := by
  induction values generalizing first before with
  | nil => exact absurd rfl hne
  | cons v values ih =>
    obtain ⟨⟨hname, hint⟩, hvalues⟩ := List.forall_mem_cons.mp hvalues
    have hpieces : (attrPieces quote first (intAttrs (v :: values))).flatten ++ rest =
        first ++ (v.1 ++ '=' :: (signedDigits v.2 ++
          ((attrPieces quote ", ".toList (intAttrs values)).flatten ++ rest))) := by
      simp [intAttrs, attrPieces, AttrValue.printed]
    have hcomma : ∀ cs, lex 0 (", ".toList ++ cs) = (lex 0 cs).map ([.symbol ','] ++ ·) := fun cs =>
      (lex_symbol (by decide) (' ' :: cs)).trans (by rw [lex_space (by decide)]; rfl)
    have hlater : Delimited ((attrPieces quote ", ".toList (intAttrs values)).flatten ++ rest) ∧
        lex 0 ((attrPieces quote ", ".toList (intAttrs values)).flatten ++ rest) = (lex 0 rest).map
          ((if intFields values = [] then [] else .symbol ',' :: fieldTokens (intFields values)) ++ ·) := by
      cases values with
      | nil => exact ⟨hrest, Option.map_id'.symm⟩
      | cons w values => exact ⟨rfl, ih hcomma (List.cons_ne_nil _ _) hvalues⟩
    rw [hpieces, hfirst, lex_name hname rfl, lex_symbol (by decide), lex_signedDigits hint hlater.1, hlater.2]
    simp only [Option.map_map]
    refine congrArg (fun f => (lex 0 rest).map f) (funext fun ts => ?_)
    simp [intFields, fieldTokens, Const.tokens]

/-- The printed rows are plain, if the names are. -/
theorem plain_attrPieces {quote : Char} {first : CString} (hfirst : PlainIn '\'' first) {values : List (CString × ℤ)}
    (hvalues : ∀ v ∈ values, PlainIn '\'' v.1) : PlainIn '\'' (attrPieces quote first (intAttrs values)).flatten := by
  have hdigits : ∀ z : ℤ, PlainIn '\'' (signedDigits z) := by
    intro z c hc
    rcases mem_signedDigits hc with hdigit | rfl
    · refine ⟨?_, ?_, ?_⟩
      · rintro rfl
        exact absurd hdigit (by decide)
      · rintro rfl
        exact absurd hdigit (by decide)
      · rw [Bool.eq_false_iff]
        intro hnewline
        rw [isNewline, Bool.or_eq_true, decide_eq_true_eq, decide_eq_true_eq] at hnewline
        rcases hnewline with rfl | rfl
        · exact absurd hdigit (by decide)
        · exact absurd hdigit (by decide)
    · decide
  induction values generalizing first with
  | nil => exact fun c hc => absurd hc List.not_mem_nil
  | cons v values ih =>
    obtain ⟨hname, hvalues⟩ := List.forall_mem_cons.mp hvalues
    have hrest := ih (show PlainIn '\'' ", ".toList by decide) hvalues
    exact ((hfirst.append hname).append (by decide)).append ((hdigits v.2).append hrest)

/-- The tokens of integer fields have no string among them. -/
theorem not_string_mem_fieldTokens (values : List (CString × ℤ)) (text : CString) :
    Token.string text ∉ fieldTokens (intFields values) := by
  have hint : ∀ z : ℤ, Token.string text ∉ intTokens z := by
    intro z
    unfold intTokens
    split <;> simp
  induction values with
  | nil => exact List.not_mem_nil
  | cons v values ih =>
    have hrest : Token.string text ∉
        (if intFields values = [] then [] else Token.symbol ',' :: fieldTokens (intFields values)) := by
      split
      · exact List.not_mem_nil
      · exact fun hmem => (List.mem_cons.mp hmem).elim (fun heq => by cases heq) ih
    intro hmem
    change Token.string text ∈ .word v.1 :: .symbol '=' :: (intTokens v.2 ++
      if intFields values = [] then [] else Token.symbol ',' :: fieldTokens (intFields values)) at hmem
    simp only [List.mem_cons, List.mem_append, reduceCtorEq, false_or] at hmem
    exact hmem.elim (hint v.2) hrest

/-- The beginning of the inner chunk: a local, a table, and the rows in it. -/
theorem lex_localRows {x : CString} (hx : isName x = true) (quote : Char) {values : List (CString × ℤ)}
    (hne : values ≠ []) (hvalues : ∀ v ∈ values, isName v.1 = true ∧ v.2.natAbs < 2 ^ 63) {rest : CString}
    (hrest : Delimited rest) :
    lex 0 ("local ".toList ++ (x ++ ("=\x7b ".toList ++ ((attrPieces quote [] (intAttrs values)).flatten ++ rest)))) =
      (lex 0 rest).map (.word "local".toList :: .word x :: .symbol '=' :: .symbol '{' ::
        fieldTokens (intFields values) ++ ·) := by
  have hrows := @lex_attrPieces quote [] [] (fun _ => Option.map_id'.symm) values hne hvalues rest hrest
  change lex 0 ("local".toList ++ ' ' :: (x ++ '=' :: '{' :: ' ' ::
    ((attrPieces quote [] (intAttrs values)).flatten ++ rest))) = _
  rw [lex_name (by decide) rfl, lex_space (by decide), lex_name hx rfl, lex_symbol (by decide), lex_symbol (by decide),
    lex_space (by decide), hrows]
  simp only [Option.map_map]
  rfl

theorem natAbs_toInt_lt (b : Bool) : b.toInt.natAbs < 2 ^ 63 := by
  cases b <;> decide

theorem mediaInts_spec {m : MediaInfo} (hcount : m.nCamsRecording < 2 ^ 31) :
    ∀ v ∈ mediaInts m, isName v.1 = true ∧ v.2.natAbs < 2 ^ 63 := by
  simp only [mediaInts, List.forall_mem_cons, List.not_mem_nil, false_imp_iff, implies_true, and_true]
  refine ⟨⟨by decide, natAbs_toInt_lt _⟩, ⟨by decide, natAbs_toInt_lt _⟩, by decide, ?_⟩
  rw [Int.natAbs_natCast]
  omega

/-- The media statement around the locomotive identifier. -/
def mediaSplice (m : MediaInfo) (hcount : m.nCamsRecording < 2 ^ 31) : Splice where
  head := "shared.sMedia=".toList
  inner := "local mstatus=\x7b ".toList ++ ((attrPieces '"' [] (intAttrs (mediaInts m))).flatten ++ ", loco_id=".toList)
  tail := " \x7d; return mstatus ;".toList
  headTokens := [.word "shared".toList, .symbol '.', .word "sMedia".toList, .symbol '=']
  innerTokens := .word "local".toList :: .word "mstatus".toList :: .symbol '=' :: .symbol '{' ::
    (fieldTokens (intFields (mediaInts m)) ++ [.symbol ',', .word "loco_id".toList, .symbol '='])
  tailTokens := [.symbol '}', .symbol ';', .word "return".toList, .word "mstatus".toList, .symbol ';']
  assignedBefore := []
  table := "shared".toList
  key := "sMedia".toList
  returned locoId := [.table (intFields (mediaInts m) ++ [("loco_id".toList, .string locoId)])]
  lex_head cs := by
    change lex 0 ("shared".toList ++ '.' :: ("sMedia".toList ++ '=' :: '\'' :: cs)) = _
    rw [lex_name (by decide) rfl, lex_symbol (by decide), lex_name (by decide) rfl, lex_symbol (by decide)]
    simp only [Option.map_map]
    rfl
  lex_inner cs := by
    have hcomma : lex 0 (", loco_id=".toList ++ '"' :: cs) =
        (lex 0 ('"' :: cs)).map ([.symbol ',', .word "loco_id".toList, .symbol '='] ++ ·) := by
      change lex 0 (',' :: ' ' :: ("loco_id".toList ++ '=' :: '"' :: cs)) = _
      rw [lex_symbol (by decide), lex_space (by decide), lex_name (by decide) rfl, lex_symbol (by decide)]
      simp only [Option.map_map]
      rfl
    have hrows := @lex_localRows "mstatus".toList (by decide) '"' (mediaInts m) (List.cons_ne_nil _ _)
      (mediaInts_spec hcount) (", loco_id=".toList ++ '"' :: cs) rfl
    rw [hcomma, Option.map_map] at hrows
    rw [List.append_assoc, List.append_assoc]
    refine Eq.trans hrows (congrArg (fun f => (lex 0 ('"' :: cs)).map f) (funext fun ts => ?_))
    simp
  lex_tail := by decide
  plain_inner := (show PlainIn '\'' "local mstatus=\x7b ".toList by decide).append
    ((plain_attrPieces (show PlainIn '\'' [] by decide) (by simp [mediaInts, PlainIn, isNewline])).append (by decide))
  plain_tail := by decide
  tail_open := by simp [isCloser]
  inner_strings text := by
    have hfields := not_string_mem_fieldTokens (mediaInts m) text
    simp [hfields]
  run_head innerText ts := ⟨_, @run_assignment "shared".toList "sMedia".toList (by decide) (by decide)
    (.string innerText) (ts.length + 5) ts⟩
  run_inner locoId := by
    set fields := intFields (mediaInts m) ++ [("loco_id".toList, .string locoId)]
    have htokens : fieldTokens fields = fieldTokens (intFields (mediaInts m)) ++
        [.symbol ',', .word "loco_id".toList, .symbol '=', .string locoId] :=
      fieldTokens_append (show intFields (mediaInts m) ≠ [] from List.cons_ne_nil _ _) (List.cons_ne_nil _ _)
    have hlocal := fun n => @run_local_table "mstatus".toList (by decide) fields (List.cons_ne_nil _ _)
      (by simp [fields, intFields, mediaInts, keywords]) (by simp [fields, intFields, mediaInts]) [] n
      [.symbol ';', .word "return".toList, .word "mstatus".toList, .symbol ';']
    rw [htokens] at hlocal
    simp only [List.cons_append, List.append_assoc, List.nil_append] at hlocal ⊢
    rw [hlocal]
    rfl
  returned_holds locoId := ⟨_, List.mem_singleton.mpr rfl, "loco_id".toList, List.mem_append_right _ List.mem_cons_self⟩

theorem cameraInts_spec {r : CamRuntime} (hr : r.InRange) :
    ∀ v ∈ cameraInts r, isName v.1 = true ∧ v.2.natAbs < 2 ^ 63 := by
  have hpicture : ∀ z : ℤ, -99 ≤ z ∧ z ≤ 999 → z.natAbs < 2 ^ 63 := fun z hz => by omega
  have hflags : ∀ flags : Flags, flags < 0x20 → flags.toInt.natAbs < 2 ^ 63 := fun flags h => by
    have hsmall : flags.toNat < 32 := h
    rw [BitVec.toInt_eq_toNat_of_lt (by omega)]
    omega
  simp only [cameraInts, List.forall_mem_cons, List.not_mem_nil, false_imp_iff, implies_true, and_true]
  exact ⟨⟨by decide, natAbs_toInt_lt _⟩, ⟨by decide, natAbs_toInt_lt _⟩, ⟨by decide, hpicture _ hr.resolution⟩,
    ⟨by decide, hpicture _ hr.compression⟩, ⟨by decide, hpicture _ hr.frameRate⟩,
    ⟨by decide, hflags _ hr.recordingModeFlags⟩, ⟨by decide, hflags _ hr.recordingStatusFlags⟩, by decide,
    natAbs_toInt_lt _⟩

theorem isName_cameraKey (i : ℕ) : isName (cameraKey i) = true := by
  have hdigits : ∀ c ∈ signedDigits (i + 1), Lua.isNameChar c = true := by
    intro c hc
    rw [signedDigits, if_neg (by omega)] at hc
    simp [Lua.isNameChar, Char.isAlphanum, isDigit_toDigits _ c hc]
  have hhead : ∀ c ∈ "Cam".toList, Lua.isNameChar c = true := List.all_eq_true.mp (by decide)
  have hkey : cameraKey i = 's' :: ("Cam".toList ++ signedDigits (i + 1)) := rfl
  rw [hkey, isName, Bool.and_eq_true, List.all_eq_true]
  exact ⟨by decide, List.forall_mem_append.mpr ⟨hhead, hdigits⟩⟩

theorem cameraKey_notMem_keywords (i : ℕ) : cameraKey i ∉ keywords := by
  have hhead : ∀ word ∈ keywords, word.take 4 ≠ "sCam".toList := by decide
  exact fun hmem => hhead _ hmem rfl

/-- What stands in front of a camera's chunk. -/
def cameraHead (nCameras i : ℕ) : CString :=
  (if i = 0 then "shared.n_cameras=".toList ++ (signedDigits nCameras ++ ";".toList) else []) ++
    ("shared.".toList ++ (cameraKey i ++ "=".toList))

/-- Its tokens. -/
def cameraHeadTokens (nCameras i : ℕ) : List Token :=
  (if i = 0 then .word "shared".toList :: .symbol '.' :: .word "n_cameras".toList :: .symbol '=' ::
    (intTokens nCameras ++ [.symbol ';']) else []) ++
    [.word "shared".toList, .symbol '.', .word (cameraKey i), .symbol '=']

theorem lex_cameraHead {nCameras : ℕ} (hn : nCameras ≤ maxCams) (i : ℕ) (cs : CString) :
    lex 0 (cameraHead nCameras i ++ '\'' :: cs) =
      (lex 0 ('\'' :: cs)).map (cameraHeadTokens nCameras i ++ ·) := by
  have hkey : lex 0 ("shared.".toList ++ (cameraKey i ++ "=".toList) ++ '\'' :: cs) = (lex 0 ('\'' :: cs)).map
      ([.word "shared".toList, .symbol '.', .word (cameraKey i), .symbol '='] ++ ·) := by
    rw [List.append_assoc, List.append_assoc]
    change lex 0 ("shared".toList ++ '.' :: (cameraKey i ++ '=' :: '\'' :: cs)) = _
    rw [lex_name (by decide) rfl, lex_symbol (by decide), lex_name (isName_cameraKey i) rfl, lex_symbol (by decide)]
    simp only [Option.map_map]
    rfl
  rw [cameraHead, cameraHeadTokens]
  split
  · have hint : (nCameras : ℤ).natAbs < 2 ^ 63 := by
      rw [maxCams] at hn
      omega
    rw [List.append_assoc, List.append_assoc, List.append_assoc]
    change lex 0 ("shared".toList ++ '.' :: ("n_cameras".toList ++ '=' :: (signedDigits nCameras ++ ';' ::
      ("shared.".toList ++ (cameraKey i ++ "=".toList) ++ '\'' :: cs)))) = _
    rw [lex_name (by decide) rfl, lex_symbol (by decide), lex_name (by decide) rfl, lex_symbol (by decide),
      lex_signedDigits hint (show Delimited (';' :: _) from rfl), lex_symbol (by decide), hkey]
    simp only [Option.map_map]
    refine congrArg (fun f => (lex 0 ('\'' :: cs)).map f) (funext fun ts => ?_)
    simp
  · exact hkey

/-- The first camera's statement sets the number of cameras before its chunk. -/
theorem run_cameraHead (nCameras i : ℕ) (innerText : CString) (ts : List Token) :
    ∃ n, Lua.run ((cameraHeadTokens nCameras i ++ .string innerText :: ts).length + 1) []
      (cameraHeadTokens nCameras i ++ .string innerText :: ts) = (Lua.run (n + 1) [] ts).map fun o =>
        ⟨countAssigned nCameras i ++ ("shared".toList, cameraKey i, .const (.string innerText)) :: o.assigned,
          o.returned⟩ := by
  have hkey := fun n => @run_assignment "shared".toList (cameraKey i) (by decide) (cameraKey_notMem_keywords i)
    (.string innerText) n ts
  unfold cameraHeadTokens countAssigned
  split
  · have hcount := fun n => @run_assignment "shared".toList "n_cameras".toList (by decide) (by decide) (.int nCameras) n
      (.symbol ';' :: .word "shared".toList :: .symbol '.' :: .word (cameraKey i) :: .symbol '=' ::
        .string innerText :: ts)
    refine ⟨(intTokens nCameras).length + ts.length + 7, ?_⟩
    simp only [List.cons_append, List.append_assoc, List.nil_append, List.length_cons, List.length_append]
    rw [show (intTokens nCameras).length + (ts.length + 1 + 1 + 1 + 1 + 1 + 1) + 1 + 1 + 1 + 1 + 1 =
      (intTokens nCameras).length + ts.length + 7 + 1 + 1 + 1 + 1 by omega]
    refine (hcount _).trans ?_
    rw [run_semicolon]
    refine (congrArg _ (hkey _)).trans ?_
    rw [Option.map_map]
    rfl
  · exact ⟨_, hkey (ts.length + 5)⟩

/-- The statement of a camera around its name. -/
def cameraSplice {nCameras : ℕ} (hn : nCameras ≤ maxCams) (i : ℕ) {r : CamRuntime} (hr : r.InRange) : Splice where
  head := cameraHead nCameras i
  inner := "local cstatus=\x7b ".toList ++
    ((attrPieces '\'' [] (intAttrs (cameraInts r))).flatten ++ " \x7d; return cstatus,".toList)
  tail := " ;".toList
  headTokens := cameraHeadTokens nCameras i
  innerTokens := .word "local".toList :: .word "cstatus".toList :: .symbol '=' :: .symbol '{' ::
    (fieldTokens (intFields (cameraInts r)) ++
      [.symbol '}', .symbol ';', .word "return".toList, .word "cstatus".toList, .symbol ','])
  tailTokens := [.symbol ';']
  assignedBefore := countAssigned nCameras i
  table := "shared".toList
  key := cameraKey i
  returned name := [.table (intFields (cameraInts r)), .const (.string name)]
  lex_head := lex_cameraHead hn i
  lex_inner cs := by
    have hreturn : lex 0 (" \x7d; return cstatus,".toList ++ '"' :: cs) = (lex 0 ('"' :: cs)).map
        ([.symbol '}', .symbol ';', .word "return".toList, .word "cstatus".toList, .symbol ','] ++ ·) := by
      change lex 0 (' ' :: '}' :: ';' :: ' ' :: ("return".toList ++ ' ' :: ("cstatus".toList ++ ',' :: '"' :: cs))) = _
      rw [lex_space (by decide), lex_symbol (by decide), lex_symbol (by decide), lex_space (by decide),
        lex_name (by decide) rfl, lex_space (by decide), lex_name (by decide) rfl, lex_symbol (by decide)]
      simp only [Option.map_map]
      rfl
    have hrows := @lex_localRows "cstatus".toList (by decide) '\'' (cameraInts r) (List.cons_ne_nil _ _)
      (cameraInts_spec hr) (" \x7d; return cstatus,".toList ++ '"' :: cs) rfl
    rw [hreturn, Option.map_map] at hrows
    rw [List.append_assoc, List.append_assoc]
    refine Eq.trans hrows (congrArg (fun f => (lex 0 ('"' :: cs)).map f) (funext fun ts => ?_))
    simp
  lex_tail := by decide
  plain_inner := (show PlainIn '\'' "local cstatus=\x7b ".toList by decide).append
    ((plain_attrPieces (show PlainIn '\'' [] by decide) (by simp [cameraInts, PlainIn, isNewline])).append (by decide))
  plain_tail := by decide
  tail_open := by simp [isCloser]
  inner_strings text := by
    have hfields := not_string_mem_fieldTokens (cameraInts r) text
    simp [hfields]
  run_head := run_cameraHead nCameras i
  run_inner name := by
    have hlocal := fun n => @run_local_table "cstatus".toList (by decide) (intFields (cameraInts r))
      (List.cons_ne_nil _ _) (by simp [intFields, cameraInts, keywords]) (by simp [intFields, cameraInts]) [] n
      [.symbol ';', .word "return".toList, .word "cstatus".toList, .symbol ',', .string name, .symbol ';']
    simp only [List.cons_append, List.append_assoc, List.nil_append] at hlocal ⊢
    rw [hlocal]
    rfl
  returned_holds name := ⟨.const (.string name), by simp, rfl⟩

/-! ## The statements as they are printed -/

theorem attrPieces_append (quote : Char) (first : CString) {attrs : List Attr} (hne : attrs ≠ []) (more : List Attr) :
    attrPieces quote first (attrs ++ more) = attrPieces quote first attrs ++ attrPieces quote ", ".toList more := by
  induction attrs generalizing first with
  | nil => exact absurd rfl hne
  | cons attr rest ih =>
    rw [List.cons_append, attrPieces, attrPieces, List.cons_append, List.cons_append]
    cases rest with
    | nil => rfl
    | cons next rest => rw [ih _ (List.cons_ne_nil _ _)]

theorem mediaPieces_flatten {m : MediaInfo} (hcount : m.nCamsRecording < 2 ^ 31) :
    (mediaPieces m).flatten = (mediaSplice m hcount).chunk m.locoId := by
  have hrows : attrPieces '"' [] (mediaAttr m) = attrPieces '"' [] (intAttrs (mediaInts m)) ++
      [", loco_id=".toList, '"' :: (m.locoId ++ ['"'])] :=
    attrPieces_append '"' [] (show intAttrs (mediaInts m) ≠ [] from List.cons_ne_nil _ _) _
  change _ = "shared.sMedia=".toList ++ '\'' :: ("local mstatus=\x7b ".toList ++
    ((attrPieces '"' [] (intAttrs (mediaInts m))).flatten ++ ", loco_id=".toList) ++
      '"' :: (m.locoId ++ '"' :: (" \x7d; return mstatus ;".toList ++ ['\''])))
  rw [mediaPieces, hrows]
  simp only [List.flatten_cons, List.flatten_append, List.flatten_nil, List.append_assoc, List.cons_append,
    List.append_nil]
  rfl

theorem cameraPieces_flatten {nCameras i : ℕ} (hn : nCameras ≤ maxCams) {r : CamRuntime} (hr : r.InRange)
    (name : CString) : (cameraPieces nCameras i r name).flatten = (cameraSplice hn i hr).chunk name := by
  have hcount : (if i = 0 then ["shared.n_cameras=".toList ++ signedDigits nCameras ++ ";".toList] else []).flatten =
      if i = 0 then "shared.n_cameras=".toList ++ (signedDigits nCameras ++ ";".toList) else [] := by
    split <;> simp
  change _ = cameraHead nCameras i ++ '\'' :: ("local cstatus=\x7b ".toList ++
    ((attrPieces '\'' [] (intAttrs (cameraInts r))).flatten ++ " \x7d; return cstatus,".toList) ++
      '"' :: (name ++ '"' :: (" ;".toList ++ ['\''])))
  rw [cameraPieces, List.flatten_append, hcount, cameraHead, cameraKey,
    show cameraAttr r = intAttrs (cameraInts r) from rfl]
  simp only [List.flatten_cons, List.flatten_append, List.flatten_nil, List.append_assoc, List.append_nil]
  rfl

theorem nul_notMem_attrPieces {quote : Char} {first : CString} (hfirst : nul ∉ first) {values : List (CString × ℤ)}
    (hvalues : ∀ v ∈ values, nul ∉ v.1) : nul ∉ (attrPieces quote first (intAttrs values)).flatten := by
  induction values generalizing first with
  | nil => exact List.not_mem_nil
  | cons v values ih =>
    obtain ⟨hname, hvalues⟩ := List.forall_mem_cons.mp hvalues
    have hrest := ih (show nul ∉ ", ".toList by decide) hvalues
    change nul ∉ first ++ v.1 ++ ['='] ++ (signedDigits v.2 ++ (attrPieces quote ", ".toList (intAttrs values)).flatten)
    simp only [List.mem_append, List.mem_singleton, not_or]
    exact ⟨⟨⟨hfirst, hname⟩, by decide⟩, nul_not_mem_signedDigits v.2, hrest⟩

/-- The media statement is exact exactly if the locomotive identifier is harmless. -/
theorem mediaExact_iff {m : MediaInfo} (hcount : m.nCamsRecording < 2 ^ 31) (hlength : m.locoId.length ≤ 32)
    (hnul : nul ∉ m.locoId) : MediaExact m (statement (mediaPieces m)) ↔ Harmless m.locoId := by
  have hfits := mediaPieces_length hcount hlength
  have hpieces : nul ∉ (mediaPieces m).flatten := by
    have hrows := @nul_notMem_attrPieces '"' [] List.not_mem_nil (mediaInts m) (by simp [mediaInts, nul])
    have hbefore : nul ∉ "local mstatus=\x7b ".toList ∧ nul ∉ ", loco_id=".toList := by decide
    have hinner : nul ∉ (mediaSplice m hcount).inner := by
      change nul ∉ "local mstatus=\x7b ".toList ++
        ((attrPieces '"' [] (intAttrs (mediaInts m))).flatten ++ ", loco_id=".toList)
      simp only [List.mem_append, not_or]
      exact ⟨hbefore.1, hrows, hbefore.2⟩
    have houter : nul ∉ "shared.sMedia=".toList ∧ nul ∉ " \x7d; return mstatus ;".toList := by decide
    rw [mediaPieces_flatten hcount]
    exact Splice.notMem_chunk houter.1 hinner houter.2 (by decide) hnul
  rw [statement_eq hpieces (by rw [sizeofString]; omega), mediaPieces_flatten hcount]
  exact (mediaSplice m hcount).exact_iff

/-- A camera's statement, with its name as it is shown, is exact with another if the two are the same and harmless. -/
theorem cameraExact_iff {nCameras i : ℕ} (hn : nCameras ≤ maxCams) (hi : i < nCameras) {r : CamRuntime}
    (hr : r.InRange) {shown name : CString} (hlength : shown.length ≤ cameraNameLength) (hnul : nul ∉ shown)
    (hlong : shown.length ≤ name.length ∨ Harmless shown) :
    CameraExact nCameras i r name (statement (cameraPieces nCameras i r shown)) ↔ Harmless name ∧ shown = name := by
  have hfits := cameraPieces_length hn hi hr hlength
  have hpieces : nul ∉ (cameraPieces nCameras i r shown).flatten := by
    have hrows := @nul_notMem_attrPieces '\'' [] List.not_mem_nil (cameraInts r) (by simp [cameraInts, nul])
    have hhead : nul ∉ cameraHead nCameras i := by
      have hcount := nul_not_mem_signedDigits nCameras
      have hnumber := nul_not_mem_signedDigits (i + 1)
      have hbefore : nul ∉ "shared.n_cameras=".toList ∧ nul ∉ ";".toList := by decide
      have hkey : nul ∉ "shared.".toList ∧ nul ∉ "sCam".toList ∧ nul ∉ "=".toList := by decide
      rw [cameraHead, cameraKey]
      simp only [List.mem_append, not_or]
      refine ⟨?_, hkey.1, ⟨hkey.2.1, hnumber⟩, hkey.2.2⟩
      split
      · simp only [List.mem_append, not_or]
        exact ⟨hbefore.1, hcount, hbefore.2⟩
      · exact List.not_mem_nil
    have hbefore : nul ∉ "local cstatus=\x7b ".toList ∧ nul ∉ " \x7d; return cstatus,".toList := by decide
    have hinner : nul ∉ (cameraSplice hn i hr).inner := by
      change nul ∉ "local cstatus=\x7b ".toList ++
        ((attrPieces '\'' [] (intAttrs (cameraInts r))).flatten ++ " \x7d; return cstatus,".toList)
      simp only [List.mem_append, not_or]
      exact ⟨hbefore.1, hrows, hbefore.2⟩
    have htail : nul ∉ " ;".toList := by decide
    rw [cameraPieces_flatten hn hr]
    exact Splice.notMem_chunk hhead hinner htail (by decide) hnul
  rw [statement_eq hpieces (by rw [sizeofString]; omega), cameraPieces_flatten hn hr]
  constructor
  · intro h
    have hexact : (cameraSplice hn i hr).Exact shown name := h
    have hharmless : Harmless shown := hlong.elim hexact.harmless id
    have hreturned := hexact.returned_eq hharmless
    obtain ⟨-, hname⟩ := List.cons.inj hreturned
    obtain rfl : name = shown := Const.string.inj (Value.const.inj (List.cons.inj hname).1)
    exact ⟨hharmless, rfl⟩
  · rintro ⟨hharmless, rfl⟩
    exact Splice.exact_of_harmless hharmless

/-! ## The names as they are shown -/

/-- What the trimming leaves of a name does not depend on its padding, if there is a character in front of it. -/
theorem cutName_of_unpadded {name : CString} {u : Char} {us : CString} (h : unpadded name = u :: us) :
    cutName name = u :: us.rdropWhile isTruncated := by
  obtain ⟨pad, hname, hpad⟩ : ∃ pad, name = u :: us ++ pad ∧ ∀ c ∈ pad, c = '_' := by
    refine ⟨name.rtakeWhile fun c => c = '_', ?_, fun c hc => by simpa using List.mem_rtakeWhile_imp hc⟩
    rw [← h, unpadded, List.rdropWhile_append_rtakeWhile]
  have htruncated : ∀ c ∈ pad.reverse, isTruncated c = true := fun c hc => by
    rw [hpad c (List.mem_reverse.mp hc)]
    rfl
  rw [hname, List.cons_append, cutName, List.rdropWhile, List.reverse_append, List.dropWhile_append_of_pos htruncated,
    List.rdropWhile]

/-- The name as it is shown is the name without its padding exactly if it is kept whole. -/
theorem cutName_eq_unpadded_iff {name : CString} (hne : name ≠ []) : cutName name = unpadded name ↔ KeptWhole name := by
  cases hunpadded : unpadded name with
  | nil =>
    refine ⟨fun h => ?_, fun h => absurd hunpadded h.1⟩
    cases name with
    | nil => exact absurd rfl hne
    | cons c rest => cases h
  | cons u us =>
    rw [cutName_of_unpadded hunpadded, KeptWhole, hunpadded, List.tail_cons, List.cons_inj_right,
      List.rdropWhile_eq_self_iff]
    constructor
    · intro h
      refine ⟨List.cons_ne_nil u us, fun c hc => ?_⟩
      have hne : us ≠ [] := by
        rintro rfl
        cases hc
      rw [List.getLast?_eq_getLast_of_ne_nil hne, Option.mem_some_iff] at hc
      exact Bool.eq_false_iff.mpr (hc ▸ h hne)
    · rintro ⟨-, h⟩ hne
      rw [h _ (List.getLast?_eq_getLast_of_ne_nil hne)]
      exact Bool.false_ne_true

/-- The name as it is shown is no longer than without its padding, or an underscore. -/
theorem cutName_short (name : CString) : (cutName name).length ≤ (unpadded name).length ∨ Harmless (cutName name) := by
  cases hunpadded : unpadded name with
  | cons u us =>
    left
    rw [cutName_of_unpadded hunpadded]
    exact Nat.succ_le_succ (List.rdropWhile_prefix _ us).length_le
  | nil =>
    right
    have hpad : ∀ c ∈ name, c = '_' := by simpa [unpadded, List.rdropWhile_eq_nil_iff] using hunpadded
    cases name with
    | nil => decide
    | cons c rest =>
      obtain ⟨rfl, hrest⟩ := List.forall_mem_cons.mp hpad
      have hcut : rest.rdropWhile isTruncated = [] :=
        List.rdropWhile_eq_nil_iff.mpr fun c hc => by rw [hrest c hc]; rfl
      rw [cutName, hcut]
      decide

/-- The statement of a camera, whose name is trimmed to be shown, is exact with its name without the padding exactly if
that name is harmless, and kept whole. -/
theorem cameraExact_unpadded_iff {nCameras i : ℕ} (hn : nCameras ≤ maxCams) (hi : i < nCameras) {r : CamRuntime}
    (hr : r.InRange) {name : CString} (hne : name ≠ []) (hlength : name.length ≤ cameraNameLength) (hnul : nul ∉ name) :
    CameraExact nCameras i r (unpadded name) (statement (cameraPieces nCameras i r (shownName name))) ↔
      Harmless (unpadded name) ∧ KeptWhole name := by
  have hshown : shownName name = cutName name := by
    rw [shownName, List.take_of_length_le hlength, text_truncNameAt_eq hnul hlength]
  have hlonger : (cutName name).length ≤ name.length ∧ nul ∉ cutName name := by
    cases name with
    | nil => exact absurd rfl hne
    | cons c rest =>
      have hprefix := List.rdropWhile_prefix isTruncated rest
      exact ⟨Nat.succ_le_succ hprefix.length_le, fun h => hnul (List.cons_subset_cons c hprefix.subset h)⟩
  rw [hshown, cameraExact_iff hn hi hr (hlonger.1.trans hlength) hlonger.2 (cutName_short name),
    cutName_eq_unpadded_iff hne]

/-! ## The status of a pass -/

namespace Agent

/-- The statements which the restart half of a pass has executed are exact: the media record's with the values it has
then, and each camera's with those that were copied of it. -/
def StatusExact (s : Agent) : Prop :=
  ∃ media cameras, s.pushStatus.1 = media :: cameras ∧ MediaExact s.restartPass.media media ∧
    List.Forall₂ (fun (c : Slot) chunk =>
      CameraExact s.media.nCameras c (s.cam c).runtime (unpadded (s.cam c).name) chunk) s.media.configured cameras

/-- The texts which are put into the statements are harmless, and the names are kept whole when they are trimmed. -/
structure TextsHarmless (s : Agent) : Prop where
  locoId : Harmless s.media.locoId
  names : ∀ c ∈ s.media.configured, Harmless (unpadded (s.cam c).name) ∧ KeptWhole (s.cam c).name

theorem statusExact_iff {s : Agent} (h : s.InRange) (hcount : s.restartPass.media.nCamsRecording < 2 ^ 31) :
    s.StatusExact ↔ s.TextsHarmless := by
  obtain ⟨-, hloco⟩ := s.restartPass_media
  have hmedia : MediaExact s.restartPass.media (statement (mediaPieces s.restartPass.media)) ↔
      Harmless s.media.locoId := by
    rw [mediaExact_iff hcount (hloco ▸ h.media.locoId.1) (hloco ▸ h.media.locoId.2), hloco]
  have hcamera : ∀ c ∈ s.media.configured, (CameraExact s.media.nCameras c (s.cam c).runtime (unpadded (s.cam c).name)
      (statement (cameraPieces s.media.nCameras c (s.cam c).runtime (shownName (s.cam c).name))) ↔
        Harmless (unpadded (s.cam c).name) ∧ KeptWhole (s.cam c).name) := by
    intro c hc
    have hconfigured : c.val < s.media.nCameras := by simpa using hc
    obtain ⟨hlength, hnul⟩ := h.media.names c hconfigured
    have hne : (s.cam c).name ≠ [] := List.ne_nil_of_length_pos (hlength ▸ (by decide : 0 < cameraNameLength))
    exact cameraExact_unpadded_iff h.media.nCameras hconfigured (h.runtime c) hne hlength.le hnul
  constructor
  · rintro ⟨media, cameras, hstatements, hexact, hcameras⟩
    rw [s.pushStatus_statements] at hstatements
    obtain ⟨rfl, rfl⟩ := List.cons.inj hstatements
    rw [List.forall₂_map_right_iff, List.forall₂_same] at hcameras
    exact ⟨hmedia.mp hexact, fun c hc => (hcamera c hc).mp (hcameras c hc)⟩
  · intro htexts
    refine ⟨_, _, s.pushStatus_statements, hmedia.mpr htexts.locoId, ?_⟩
    rw [List.forall₂_map_right_iff, List.forall₂_same]
    exact fun c hc => (hcamera c hc).mpr (htexts.names c hc)

/-- The monitor half of a pass leaves the texts alone. -/
theorem camonPass_textsHarmless (s : Agent) (answers : List CamonStatus) (arp : Slot → Option CString) :
    (s.camonPass answers arp).TextsHarmless ↔ s.TextsHarmless := by
  have hnames : ∀ c, ((s.camonPass answers arp).cam c).name = (s.cam c).name :=
    @camonPass_of_frames (fun t => ∀ c, (t.cam c).name = (s.cam c).name)
      (fun c t t' ht h d => (ht.names d).trans (h d)) s (fun _ => rfl) answers arp
  have hconfigured : (s.camonPass answers arp).media.configured = s.media.configured :=
    @camonPass_of_frames (fun t => t.media.configured = s.media.configured)
      (fun c t t' ht h => ht.configured.trans h) s rfl answers arp
  have hloco := (PictureKept.camonPass s answers arp).locoId
  constructor
  · rintro ⟨hlocoId, hharmless⟩
    simp only [hloco, hconfigured, hnames] at hlocoId hharmless
    exact ⟨hlocoId, hharmless⟩
  · rintro ⟨hlocoId, hharmless⟩
    refine ⟨hloco ▸ hlocoId, fun c hc => ?_⟩
    rw [hnames]
    exact hharmless c (hconfigured ▸ hc)

/-- In every run, what the 1 Hz timer pushes comes to the run-time state exactly if the locomotive identifier and the
names are harmless, and the names are kept whole. -/
theorem run_statusExact_iff {cfg : Config} (hcfg : cfg.InRange) (chmReady rssdReady opens : Bool) {is : List Input}
    (his : ∀ i ∈ is, i.event.InRange) (answers : List CamonStatus) (arp : Slot → Option CString)
    (hcount : ((run step (start cfg chmReady rssdReady opens) is).timerCallback answers arp).media.nCamsRecording <
      2 ^ 31) :
    ((run step (start cfg chmReady rssdReady opens) is).camonPass answers arp).StatusExact ↔
      (run step (start cfg chmReady rssdReady opens) is).TextsHarmless := by
  have hrange := run_inRange hcfg chmReady rssdReady opens his
  rw [statusExact_iff (hrange.camonPass answers arp) hcount, camonPass_textsHarmless]

/-- A configuration with the camera `CAB`, for a locomotive of this name. -/
def namedConfig (locoId : CString) : Config := { cabConfig true with locoId := locoId }

theorem namedConfig_inRange {locoId : CString} (h : locoId.length ≤ 32 ∧ nul ∉ locoId) :
    (namedConfig locoId).InRange := by
  refine ⟨h, fun i => ?_⟩
  change (if i = 0 then cabCamera true else CamConfig.empty).InRange
  split
  · exact ⟨by decide, by decide, by decide, by decide⟩
  · exact ⟨by decide, by decide, by decide, by decide⟩

theorem run_statusExact_bnsf :
    ((run step (start (namedConfig "BNSF".toList) true true true) cabRecording).camonPass [] fun _ => none).StatusExact ↔
      (run step (start (namedConfig "BNSF".toList) true true true) cabRecording).TextsHarmless :=
  run_statusExact_iff (namedConfig_inRange (by decide)) true true true
    (by simp [cabRecording, cabTick, Event.quiet, Event.InRange]) [] (fun _ => none) (by decide +kernel)

/-- An apostrophe in the identifier of the locomotive ends the string of the media statement, which is then no Lua. -/
theorem start_not_statusExact :
    (namedConfig "O'HARE".toList).InRange ∧
      ¬ ((start (namedConfig "O'HARE".toList) true true true).camonPass [] fun _ => none).StatusExact := by
  refine ⟨namedConfig_inRange (by decide), ?_⟩
  rintro ⟨media, cameras, hstatements, ⟨inner, hexec, -⟩, -⟩
  have hmedia : media = statement (mediaPieces
      ((start (namedConfig "O'HARE".toList) true true true).camonPass [] fun _ => none).restartPass.media) :=
    (List.cons.inj (hstatements.symm.trans (pushStatus_statements _))).1
  have hwrong : exec (statement (mediaPieces
      ((start (namedConfig "O'HARE".toList) true true true).camonPass [] fun _ => none).restartPass.media)) = none := by
    decide +kernel
  rw [hmedia, hwrong] at hexec
  cases hexec

end Agent

end RecordingAgent.Reagent
