import RecordingAgent.Foundation.FirstMatch
import RecordingAgent.RtspPlay.CleanUp

/-!
# The directory which an address opens

Describing and setting up a media cut the directory of the source out of the decoded path: up to the extension
of the media, and then up to the last slash before it. Neither is looked at before it is written through, and
the names in between are taken as they come.
-/

namespace RecordingAgent.RtspPlay

open Foundation

/-- The requests which carry the address of a media. -/
inductive UriRequest
  | describe (uri : CString)
  | setup (session : Option CString) (uri : CString)

/-- The address of a request. -/
def UriRequest.uri : UriRequest → CString
  | .describe uri => uri
  | .setup _ uri => uri

/-- What comes of such a request: the server crashes, it answers with an error, it goes on with a session that
is there, or it opens a source in a directory. -/
inductive Answer
  | crash
  | error (code : ℤ)
  | joined
  | opened (dir : CString)

/-- `rtsp_ondescribe` and `rtsp_onsetup`, up to where the source is there. Whether assertions are compiled in
is up to the build. -/
def Host.answer (host : Host) (asserts : Bool) (sessions : TSessions) : UriRequest → Answer
  | .describe uri =>
    match host.srcDir uri with
    | none => .crash
    | some none => if asserts then .crash else .error (-1)
    | some (some dir) => .opened dir
  | .setup session uri =>
    match host.srcDir uri, session with
    | none, _ => .crash
    | some none, _ => .error 459
    | some (some dir), none => .opened dir
    | some (some _), some name => if (sessions name).isSome then .joined else .error 454

/-- The names in a path. Empty ones and dots lead nowhere. -/
def pathNames (path : CString) : List CString :=
  (path.splitOn '/').filter fun name => name != [] && name != ['.']

/-- One name leads from the directory to the other one, and not upwards. -/
def ChildOf (base dir : CString) : Prop :=
  ∃ rel name, dir = base ++ rel ∧ pathNames rel = [name] ∧ name ≠ ['.', '.']

/-- The server goes on, and a directory it opened is a child of this one. -/
def Answer.Safe (base : CString) : Answer → Prop
  | .crash => False
  | .error _ => True
  | .joined => True
  | .opened dir => ChildOf base dir

/-- The part of a path up to the last slash before the extension. -/
def mediaDir (path : CString) : Option CString :=
  (strstr path ".vra".toList).map fun k => (path.take k).rdropWhile (· != '/')

/-- In the path behind the directory, one name is in front of the media. -/
def LeadsToChild (base path : CString) : Prop :=
  strstr base ".vra".toList = none ∧
    ∃ rel name, mediaDir path = some rel ∧ pathNames rel = [name] ∧ name ≠ ['.', '.']

/-- There is an extension, and a slash before it. -/
def Delimited (text : CString) : Prop := ∃ k, strstr text ".vra".toList = some k ∧ '/' ∈ text.take k

/-- When a request is handled safely: outside of the playback path unless it trips an assertion, with a
session if its path has the two delimiters, and otherwise if one name is in front of the media. -/
def Host.SafeWhen (host : Host) (base : CString) (asserts : Bool) (request : UriRequest) : Prop :=
  if "/playback/".toList <+: host.rtspUriParse request.uri then
    match request with
    | .setup (some _) _ => Delimited (base ++ (host.rtspUriParse request.uri).drop 10)
    | _ => LeadsToChild base ((host.rtspUriParse request.uri).drop 10)
  else
    match request with
    | .describe _ => asserts = false
    | .setup _ _ => True

section

variable {base path needle : CString}

/-- A needle without a slash does not reach over the slash at the end of a text. -/
theorem not_begins_of_slash (hbase : base.getLast? = some '/') (hneedle : '/' ∉ needle)
    (hnone : strstr base needle = none) : ∀ k < base.length, ¬needle <+: (base ++ path).drop k := by
  intro k hk hprefix
  rw [List.drop_append_of_le_length hk.le] at hprefix
  rcases List.prefix_or_prefix_of_prefix hprefix (List.prefix_append (base.drop k) path) with hinside | hover
  · have hfound := (strstr_isSome_iff base needle).mpr (hinside.isInfix.trans (List.drop_suffix k base).isInfix)
    rw [hnone] at hfound
    nomatch hfound
  · have hslash : '/' ∈ base.drop k := by
      apply List.mem_of_getLast?
      rwa [List.getLast?_drop, if_neg (by omega)]
    exact hneedle (hover.subset hslash)

/-- Behind a text without the needle, it is looked for in the rest. -/
theorem strstr_append_of_slash (hbase : base.getLast? = some '/') (hneedle : '/' ∉ needle)
    (hnone : strstr base needle = none) (path : CString) :
    strstr (base ++ path) needle = (strstr path needle).map (base.length + ·) :=
  strstr_append_of_not_begins (not_begins_of_slash hbase hneedle hnone)

/-- A needle in a text is found there, whatever is behind it. -/
theorem lt_of_strstr_append {k k' : ℕ} (hne : needle ≠ []) (hbase : strstr base needle = some k)
    (h : strstr (base ++ path) needle = some k') : k' < base.length := by
  obtain ⟨hle, heq⟩ := eq_of_strstr hbase
  have hlength := congrArg List.length heq
  have hpositive := List.length_pos_iff.mpr hne
  simp only [List.length_append, List.length_take, List.length_drop] at hlength
  by_contra hlater
  have hearlier := find?_first List.pairwise_lt_range h k (List.mem_range.mpr (by simp; omega)) (by omega)
  rw [Bool.eq_false_iff, ne_eq, List.isPrefixOf_iff_prefix, heq, List.append_assoc] at hearlier
  apply hearlier
  rw [List.drop_left' (by simp; omega), List.append_assoc]
  exact List.prefix_append _ _

/-- Up to the last slash of a text behind one which ends in a slash. -/
theorem throughLastSlash_append (hbase : base.getLast? = some '/') (text : CString) :
    throughLastSlash (base ++ text) = some (base ++ text.rdropWhile (· != '/')) := by
  have hslash : '/' ∈ base ++ text := List.mem_append_left _ (List.mem_of_getLast? hbase)
  rw [throughLastSlash, if_pos hslash]
  congr 1
  induction text using List.reverseRecOn with
  | nil =>
    rw [List.append_nil, List.rdropWhile_nil, List.append_nil, List.rdropWhile_eq_self_iff]
    intro hne
    rw [List.getLast?_eq_some_getLast hne] at hbase
    simp [Option.some.inj hbase]
  | append_singleton text c ih =>
    rw [← List.append_assoc, List.rdropWhile_concat, List.rdropWhile_concat]
    split
    · exact ih (List.mem_append_left _ (List.mem_of_getLast? hbase))
    · rw [List.append_assoc]

/-- The media is in a child of the directory exactly when one name is in front of it. -/
theorem childOf_iff_leadsToChild (hbase : base.getLast? = some '/') (path : CString) :
    (∃ k dir, strstr (base ++ path) ".vra".toList = some k ∧ throughLastSlash ((base ++ path).take k) = some dir ∧
      ChildOf base dir) ↔ LeadsToChild base path := by
  have hneedle : '/' ∉ ".vra".toList := by decide
  cases hnone : strstr base ".vra".toList with
  | none =>
    rw [strstr_append_of_slash hbase hneedle hnone, LeadsToChild, hnone, mediaDir]
    cases hfound : strstr path ".vra".toList with
    | none => simp
    | some k =>
      have hcut : throughLastSlash ((base ++ path).take (base.length + k)) =
          some (base ++ (path.take k).rdropWhile (· != '/')) := by
        rw [List.take_length_add_append, throughLastSlash_append hbase]
      constructor
      · rintro ⟨_, dir, hk, hdir, rel, name, rfl, hname⟩
        rw [← Option.some.inj hk, hcut] at hdir
        have hrel := List.append_cancel_left (Option.some.inj hdir)
        exact ⟨rfl, rel, name, congrArg some hrel, hname⟩
      · rintro ⟨-, rel, name, hrel, hname⟩
        exact ⟨_, _, rfl, hcut, rel, name, Option.some.inj hrel ▸ rfl, hname⟩
  | some k' =>
    -- the directory is cut itself
    rw [LeadsToChild, hnone]
    simp only [reduceCtorEq, false_and, iff_false]
    rintro ⟨k, dir, hfound, hdir, rel, name, rfl, -⟩
    have hlt := lt_of_strstr_append (by decide) hnone hfound
    have hprefix : base ++ rel <+: (base ++ path).take k := by
      rw [throughLastSlash] at hdir
      split at hdir
      · exact Option.some.inj hdir ▸ List.rdropWhile_prefix _ _
      · nomatch hdir
    have hlength := hprefix.length_le
    simp only [List.length_append, List.length_take] at hlength
    omega

end

section

variable {host : Host} {base uri : CString}

/-- In the playback path the directory is cut out of the joined path. -/
theorem srcDir_playback (hjoin : ∀ path, host.join host.rootDirectory path = base ++ path)
    (hplayback : "/playback/".toList <+: host.rtspUriParse uri) :
    host.srcDir uri = (strstr (base ++ (host.rtspUriParse uri).drop 10) ".vra".toList).bind fun k =>
      (throughLastSlash ((base ++ (host.rtspUriParse uri).drop 10).take k)).map some := by
  rw [Host.srcDir, if_pos hplayback, hjoin]
  dsimp only
  cases strstr (base ++ (host.rtspUriParse uri).drop 10) ".vra".toList <;> rfl

/-- There it is never another path which is found. -/
theorem srcDir_playback_ne_other (hjoin : ∀ path, host.join host.rootDirectory path = base ++ path)
    (hplayback : "/playback/".toList <+: host.rtspUriParse uri) : host.srcDir uri ≠ some none := by
  rw [srcDir_playback hjoin hplayback]
  intro hother
  obtain ⟨k, -, hcut⟩ := Option.bind_eq_some_iff.mp hother
  obtain ⟨dir, -, hdir⟩ := Option.map_eq_some_iff.mp hcut
  cases hdir

/-- The cuts succeed if both delimiters are there. -/
theorem srcDir_playback_ne_none_iff (hjoin : ∀ path, host.join host.rootDirectory path = base ++ path)
    (hplayback : "/playback/".toList <+: host.rtspUriParse uri) :
    host.srcDir uri ≠ none ↔ Delimited (base ++ (host.rtspUriParse uri).drop 10) := by
  rw [srcDir_playback hjoin hplayback, Delimited]
  cases strstr (base ++ (host.rtspUriParse uri).drop 10) ".vra".toList with
  | none => simp
  | some k => simp [throughLastSlash]

/-- What is opened is a child of the directory if one name is in front of the media. -/
theorem srcDir_playback_childOf_iff (hbase : base.getLast? = some '/')
    (hjoin : ∀ path, host.join host.rootDirectory path = base ++ path)
    (hplayback : "/playback/".toList <+: host.rtspUriParse uri) :
    (∃ dir, host.srcDir uri = some (some dir) ∧ ChildOf base dir) ↔
      LeadsToChild base ((host.rtspUriParse uri).drop 10) := by
  rw [← childOf_iff_leadsToChild hbase, srcDir_playback hjoin hplayback]
  constructor
  · rintro ⟨dir, hsome, hchild⟩
    obtain ⟨k, hk, hcut⟩ := Option.bind_eq_some_iff.mp hsome
    obtain ⟨dir', hdir', heq⟩ := Option.map_eq_some_iff.mp hcut
    exact ⟨k, dir', hk, hdir', Option.some.inj heq ▸ hchild⟩
  · rintro ⟨k, dir, hk, hcut, hchild⟩
    exact ⟨dir, by rw [hk, Option.bind_some, hcut]; rfl, hchild⟩

/-- A request which opens a directory, or crashes, is safe if the directory is a child. -/
theorem safe_of_opens_iff {asserts : Bool} {sessions : TSessions} {request : UriRequest}
    (hnever : host.srcDir request.uri ≠ some none) (hopens : ∀ name uri, request ≠ .setup (some name) uri) :
    (host.answer asserts sessions request).Safe base ↔
      ∃ dir, host.srcDir request.uri = some (some dir) ∧ ChildOf base dir := by
  cases request with
  | describe uri =>
    rw [UriRequest.uri] at hnever ⊢
    rcases hsrc : host.srcDir uri with _ | _ | dir
    · simp [Host.answer, Answer.Safe, hsrc]
    · exact absurd hsrc hnever
    · simp [Host.answer, Answer.Safe, hsrc]
  | setup session uri =>
    rw [UriRequest.uri] at hnever ⊢
    cases session with
    | none =>
      rcases hsrc : host.srcDir uri with _ | _ | dir
      · simp [Host.answer, Answer.Safe, hsrc]
      · exact absurd hsrc hnever
      · simp [Host.answer, Answer.Safe, hsrc]
    | some name => exact absurd rfl (hopens name uri)

end

end RecordingAgent.RtspPlay
