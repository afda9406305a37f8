import RecordingAgent.RtspPlay.Server

/-!
# What is deleted after playback

Opening a session looks at the decoded path of its address and the clean-up at the address itself, which it
pastes into a command. The clean-up is right if the command names the directory which was opened, as one
literal word; for an address with dots or characters of the shell in its path it has to be harmless.
-/

namespace RecordingAgent.RtspPlay

open Foundation

/-- A name which a directory of a session may have. -/
def ProperName (name : CString) : Prop :=
  name ≠ [] ∧ '/' ∉ name ∧ name ≠ ".".toList ∧ name ≠ "..".toList

instance (name : CString) : Decidable (ProperName name) := inferInstanceAs (Decidable (_ ∧ _))

/-- `rm` refuses to remove a directory by one of these names. -/
def dotName (path : CString) : Bool := path.rtakeWhile (· != '/') ∈ [".".toList, "..".toList]

/-- `rm` -/
def rmWord : CString := ['r', 'm']

/-- `-rf` -/
def rfWord : CString := ['-', 'r', 'f']

/-- The paths which a command removes, if it is nothing but a removal. -/
def rmTargets (present : CString → Bool) (command : CString) : Option (List CString) :=
  (simpleCommand command).bind fun words =>
    if words.take 2 = [rmWord, rfWord] ∧ ∀ word ∈ words.drop 2, word.head? ≠ some '-' then
      some ((words.drop 2).filter fun word => present word && !dotName word)
    else none

namespace Host

variable (host : Host) (present : CString → Bool) (dir uri : CString) (command : Option CString)

/-- The path of the address has two dots or a character which means something to the shell. -/
def OddPath : Prop :=
  "..".toList <:+: host.rtspUriParse uri ∨
    ∃ c ∈ host.rtspUriParse uri, c ∈ shellSpecial ∨ c ∈ shellSpecialFirst ∨ isBlank c = true

instance : Decidable (host.OddPath uri) := @instDecidableOr _ _ inferInstance (List.decidableBEx _ _)

/-- The directory which was opened is one below the root directory, and the command removes it and is
passed to the shell with its path as one literal word. -/
def DeletesOpened : Prop :=
  ∃ name, ProperName name ∧ dir = host.rootDirectory ++ name ++ ['/'] ∧
    command = some (rtspDeleteDir (host.rootDirectory ++ name)) ∧
    simpleCommand (rtspDeleteDir (host.rootDirectory ++ name)) =
      some [rmWord, rfWord, host.rootDirectory ++ name]

/-- No command is run, or one which removes nothing but the directory which was opened. -/
def Harmless : Prop :=
  ∀ line, command = some line → ∃ paths, rmTargets present line = some paths ∧ ∀ path ∈ paths, path ++ ['/'] = dir

/-- What the clean-up of a session has to do, by the address with which the session was played. -/
def CleansUp : Prop :=
  (¬host.OddPath uri → host.DeletesOpened dir command) ∧ (host.OddPath uri → Harmless present dir command)

/-- When the clean-up deletes the directory which was opened: its name stands behind the template of the
address, and nothing in its path means anything to the shell. -/
def DeletesWhen : Prop :=
  ProperName (rtspExtractUuid uri) ∧ dir = host.rootDirectory ++ rtspExtractUuid uri ++ ['/'] ∧
    LiteralWord (host.rootDirectory ++ rtspExtractUuid uri)

/-- When the clean-up is harmless: no name is cut out of the address, or nothing in the path means anything
to the shell and each of its words is the directory which was opened or not there. -/
def HarmlessWhen : Prop :=
  rtspExtractUuid uri ≠ [] → ∃ words, simpleCommand (host.rootDirectory ++ rtspExtractUuid uri) = some words ∧
    (∀ word ∈ words, word.head? ≠ some '-') ∧
    ∀ word ∈ words, present word = true → dotName word = false → word ++ ['/'] = dir

/-- When the clean-up of a session is right. -/
def CleansUpWhen : Prop :=
  (¬host.OddPath uri → host.DeletesWhen dir uri) ∧ (host.OddPath uri → host.HarmlessWhen present dir uri)

end Host

theorem literalWord_rm : LiteralWord rmWord := by decide +kernel

theorem literalWord_rf : LiteralWord rfWord := by decide +kernel

/-- The words of the command are those of the path behind two of its own. -/
theorem simpleCommand_rtspDeleteDir (path : CString) : simpleCommand (rtspDeleteDir path) =
    (simpleCommand path).map fun words => rmWord :: rfWord :: words := by
  have hsplit : rtspDeleteDir path = rmWord ++ ' ' :: (rfWord ++ ' ' :: path) := rfl
  rw [hsplit, simpleCommand_append literalWord_rm, simpleCommand_append literalWord_rf, Option.map_map]
  rfl

variable {host : Host} {present : CString → Bool} {dir uri : CString}

/-- The clean-up deletes the directory which was opened exactly when its name stands in the address. -/
theorem deletesOpened_iff : host.DeletesOpened dir (host.deleteCommand uri) ↔ host.DeletesWhen dir uri := by
  constructor
  · rintro ⟨name, hname, hdir, hcommand, hwords⟩
    rw [Host.deleteCommand] at hcommand
    split at hcommand
    · have hline := Option.some.inj hcommand
      rw [rtspDeleteDir, rtspDeleteDir] at hline
      have heq : rtspExtractUuid uri = name := List.append_cancel_left (List.append_cancel_left hline)
      rw [simpleCommand_rtspDeleteDir, Option.map_eq_some_iff] at hwords
      obtain ⟨words, hsimple, hlist⟩ := hwords
      obtain rfl : words = [host.rootDirectory ++ name] := (List.cons.inj (List.cons.inj hlist).2).2
      rw [Host.DeletesWhen, heq]
      exact ⟨hname, hdir, simpleCommand_eq_singleton_iff.mp hsimple⟩
    · nomatch hcommand
  · rintro ⟨hname, hdir, hliteral⟩
    refine ⟨rtspExtractUuid uri, hname, hdir, if_pos hname.1, ?_⟩
    rw [simpleCommand_rtspDeleteDir, simpleCommand_eq_singleton_iff.mpr hliteral, Option.map_some]

/-- It is harmless exactly when every word of the path is. -/
theorem harmless_iff : Host.Harmless present dir (host.deleteCommand uri) ↔ host.HarmlessWhen present dir uri := by
  rw [Host.HarmlessWhen, Host.Harmless, Host.deleteCommand]
  by_cases hname : rtspExtractUuid uri = []
  · simp [hname]
  · rw [if_pos hname]
    have htargets : rmTargets present (rtspDeleteDir (host.rootDirectory ++ rtspExtractUuid uri)) =
        (simpleCommand (host.rootDirectory ++ rtspExtractUuid uri)).bind fun words =>
          if ∀ word ∈ words, word.head? ≠ some '-' then
            some (words.filter fun word => present word && !dotName word)
          else none := by
      rw [rmTargets, simpleCommand_rtspDeleteDir, Option.bind_map]
      apply Option.bind_congr
      intro words _
      simp
    constructor
    · intro h _
      obtain ⟨paths, hpaths, hdir⟩ := h _ rfl
      rw [htargets, Option.bind_eq_some_iff] at hpaths
      obtain ⟨words, hwords, hremoved⟩ := hpaths
      split at hremoved
      · rename_i hoptions
        obtain rfl := Option.some.inj hremoved
        refine ⟨words, hwords, hoptions, fun word hword hpresent hdot => hdir word ?_⟩
        rw [List.mem_filter, hpresent, hdot]
        exact ⟨hword, rfl⟩
      · nomatch hremoved
    · intro h line hline
      obtain ⟨words, hwords, hoptions, hdir⟩ := h hname
      obtain rfl := Option.some.inj hline
      refine ⟨words.filter fun word => present word && !dotName word, ?_, fun path hpath => ?_⟩
      · rw [htargets, hwords, Option.bind_some, if_pos hoptions]
      · obtain ⟨hword, hkept⟩ := List.mem_filter.mp hpath
        rw [Bool.and_eq_true, Bool.not_eq_true'] at hkept
        exact hdir path hword hkept.1 hkept.2

/-- In every run of the server, the clean-up of a session which was opened and played is right exactly when
the address with which it was played names the directory which was opened. -/
theorem cleansUp_iff (host : Host) (history : List Request) (sessions sessions' : TSessions)
    (command : Option CString) (name dir uri : CString) (request : Request)
    (hserved : Served host history sessions) (hclose : request = .teardown name ∨ request = .ended name)
    (hserve : host.serve sessions request = some (sessions', command))
    (hopened : openedDir host name history = some dir) (hplayed : playedUri host name history = some uri)
    (present : CString → Bool) :
    host.CleansUp present dir uri command ↔ host.CleansUpWhen present dir uri := by
  have hcommand : command = host.deleteCommand uri := by
    obtain ⟨hknown, -⟩ := hserved.known name
    rw [hopened, hplayed, Option.map_some] at hknown
    obtain ⟨item, hitem, hfields⟩ := Option.map_eq_some_iff.mp hknown
    have huri : item.uri = uri := (Prod.mk.inj hfields).2
    rcases hclose with rfl | rfl
    · rw [← (Prod.mk.inj (Option.some.inj hserve)).2, hitem, Option.bind_some, huri]
    · simp only [Host.serve, hitem] at hserve
      split at hserve
      · rw [← (Prod.mk.inj (Option.some.inj hserve)).2, huri]
      · cases hserve
  rw [hcommand, Host.CleansUp, Host.CleansUpWhen, deletesOpened_iff, harmless_iff]

/-- No other request runs a command. -/
theorem serve_command_none {host : Host} {sessions sessions' : TSessions} {request : Request}
    {command : Option CString} (hserve : host.serve sessions request = some (sessions', command))
    (hother : ∀ name, request ≠ .teardown name ∧ request ≠ .ended name) : command = none := by
  cases request with
  | setup session uri pointer =>
    simp only [Host.serve] at hserve
    split at hserve <;> simp_all
  | play session uri => exact (Prod.mk.inj (Option.some.inj hserve)).2.symm
  | pause session => exact (Prod.mk.inj (Option.some.inj hserve)).2.symm
  | teardown session => exact absurd rfl (hother session).1
  | ended session => exact absurd rfl (hother session).2

/-- A server with the default root directory, for addresses without escapes. -/
def defaultHost : Host where
  uriPath := fun uri => some ((uri.drop 7).dropWhile (· != '/'))
  join := fun a b => a ++ b
  rootDirectory := "/tmp/playback/".toList

/-- An address with the template in it. -/
def templateUri : CString := "rtsp://10.10.9.43:55400/playback/42/CAM1.vra".toList

/-- An address as `access_data` hands them out. -/
def handedOutUri : CString := "rtsp://localhost/playback/42/CAM1.vra".toList

/-- A session with that name is opened and played. -/
def playedOnce (uri : CString) : List Request := [.play ['s'] uri, .setup none uri ['s']]

/-- The directory of the session with that name. -/
def sessionDir : CString := "/tmp/playback/42/".toList

theorem srcDir_templateUri : defaultHost.srcDir templateUri = some (some sessionDir) := by decide +kernel

theorem srcDir_handedOutUri : defaultHost.srcDir handedOutUri = some (some sessionDir) := by decide +kernel

/-- The server after that. -/
theorem served_playedOnce {uri dir : CString} (hdir : defaultHost.srcDir uri = some (some dir)) :
    (∃ sessions, Served defaultHost (playedOnce uri) sessions ∧ sessions ['s'] = some ⟨dir, 1, uri⟩) ∧
      openedDir defaultHost ['s'] (playedOnce uri) = some dir ∧
      playedUri defaultHost ['s'] (playedOnce uri) = some uri := by
  have hserve : defaultHost.serve (fun _ => none) (.setup none uri ['s']) =
      some (TSessions.insert (fun _ => none) ['s'] ⟨dir, 0, []⟩, none) := by
    simp only [Host.serve, hdir]
  exact ⟨⟨_, .step (.step .start hserve) rfl, rfl⟩, by simp [openedDir, playedOnce, hdir],
    by simp [openedDir, playedUri, playedOnce, hdir]⟩

/-- With the template in the address, closing the session deletes its directory. -/
theorem cleansUp_iff_templateUri : defaultHost.CleansUp (fun _ => true) sessionDir templateUri
    (some (rtspDeleteDir "/tmp/playback/42".toList)) := by
  obtain ⟨⟨sessions, hserved, hitem⟩, hopened, hplayed⟩ := served_playedOnce srcDir_templateUri
  have hcommand : defaultHost.deleteCommand templateUri = some (rtspDeleteDir "/tmp/playback/42".toList) := by
    decide +kernel
  have hserve : defaultHost.serve sessions (.teardown ['s']) =
      some (sessions.erase ['s'], some (rtspDeleteDir "/tmp/playback/42".toList)) := by
    rw [Host.serve, hitem, Option.bind_some, hcommand]
  apply (cleansUp_iff defaultHost (playedOnce templateUri) sessions _ _ ['s'] sessionDir templateUri _ hserved
    (Or.inl rfl) hserve hopened hplayed fun _ => true).mpr
  have hplain : ¬defaultHost.OddPath templateUri := by decide +kernel
  exact ⟨fun _ => ⟨by decide +kernel, by decide +kernel, by decide +kernel⟩, fun hodd => absurd hodd hplain⟩

/-- With the address which was handed out, closing the session deletes nothing. -/
theorem not_cleansUp_handedOutUri : ∃ sessions sessions',
    Served defaultHost (playedOnce handedOutUri) sessions ∧
      openedDir defaultHost ['s'] (playedOnce handedOutUri) = some sessionDir ∧
      playedUri defaultHost ['s'] (playedOnce handedOutUri) = some handedOutUri ∧
      defaultHost.serve sessions (.teardown ['s']) = some (sessions', none) ∧
      ¬defaultHost.CleansUp (fun _ => true) sessionDir handedOutUri none := by
  obtain ⟨⟨sessions, hserved, hitem⟩, hopened, hplayed⟩ := served_playedOnce srcDir_handedOutUri
  have hcommand : defaultHost.deleteCommand handedOutUri = none := by decide +kernel
  refine ⟨sessions, sessions.erase ['s'], hserved, hopened, hplayed, ?_, ?_⟩
  · rw [Host.serve, hitem, Option.bind_some, hcommand]
  · intro hright
    have hplain : ¬defaultHost.OddPath handedOutUri := by decide +kernel
    obtain ⟨_, -, -, hcommand', -⟩ := hright.1 hplain
    cases hcommand'

end RecordingAgent.RtspPlay
