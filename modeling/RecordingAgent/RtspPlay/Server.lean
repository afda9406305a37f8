import Mathlib.Data.List.Infix
import RecordingAgent.Foundation.Shell

/-!
# The sessions of the streaming server

A session is opened by a request for a media below the root directory, keeps the address with which it is
played, and is closed on request or when its video has ended. Closing it deletes the directory whose name is
cut out of that address. The requests which the server has handled determine what it knows of a session.
-/

namespace RecordingAgent.RtspPlay

open Foundation

/-- What the server depends on: the decoded path of an address (`uri_parse` and `url_decode`), `path::join`,
and the root directory. -/
structure Host where
  uriPath : CString → Option CString
  join : CString → CString → CString
  rootDirectory : CString

/-- `rtsp_media_t`: the directory of the source, whether it is played, and the address. -/
structure RtspMedia where
  media : CString
  status : ℕ
  uri : CString
  deriving DecidableEq

/-- `TSessions`, by the names of the sessions. -/
abbrev TSessions := CString → Option RtspMedia

/-- The address which the clean-up expects. -/
def startTemplate : CString := "rtsp://10.10.9.43:55400/playback/".toList

/-- `rtsp_extract_uuid` -/
def rtspExtractUuid (uri : CString) : CString :=
  if startTemplate <:+: uri then (uri.drop startTemplate.length).takeWhile (· != '/') else []

/-- `rm -rf ` -/
def rmCommand : CString := ['r', 'm', ' ', '-', 'r', 'f', ' ']

/-- The command which `rtsp_delete_dir` gives to `system`. -/
def rtspDeleteDir (path : CString) : CString := rmCommand ++ path

/-- Up to the last slash and with it. -/
def throughLastSlash (text : CString) : Option CString :=
  if '/' ∈ text then some (text.rdropWhile (· != '/')) else none

namespace Host

variable (host : Host)

/-- `rtsp_uri_parse`, which leaves the path empty if the address cannot be parsed. -/
def rtspUriParse (uri : CString) : CString := (host.uriPath uri).getD []

/-- The directory of the source of an address, if the address is accepted. There is no result if the path
lacks the extension or a slash: a null pointer is then written through. -/
def srcDir (uri : CString) : Option (Option CString) :=
  if "/playback/".toList <+: host.rtspUriParse uri then
    let joined := host.join host.rootDirectory ((host.rtspUriParse uri).drop 10)
    match strstr joined ".vra".toList with
    | none => none
    | some k => (throughLastSlash (joined.take k)).map some
  else some none

/-- The command which cleans up after an address, if one is run. -/
def deleteCommand (uri : CString) : Option CString :=
  if rtspExtractUuid uri ≠ [] then some (rtspDeleteDir (host.rootDirectory ++ rtspExtractUuid uri)) else none

end Host

/-- What the server handles: the requests, and the end of the video of a session. The name of a new session
is the address of its source in memory. -/
inductive Request
  | setup (session : Option CString) (uri pointer : CString)
  | play (session uri : CString)
  | pause (session : CString)
  | teardown (session : CString)
  | ended (session : CString)
  deriving DecidableEq

namespace TSessions

/-- `std::map::insert`, which keeps an entry that is there. -/
def insert (sessions : TSessions) (name : CString) (item : RtspMedia) : TSessions := fun i =>
  if i = name then (sessions i).or (some item) else sessions i

/-- Change an entry that is there. -/
def modify (sessions : TSessions) (name : CString) (change : RtspMedia → RtspMedia) : TSessions := fun i =>
  if i = name then (sessions i).map change else sessions i

/-- `std::map::erase` -/
def erase (sessions : TSessions) (name : CString) : TSessions := fun i => if i = name then none else sessions i

end TSessions

/-- One request: the sessions afterwards and the command which is run, if one is. There is no result if the
server crashes, nor for the end of the video of a session which is not played. -/
def Host.serve (host : Host) (sessions : TSessions) : Request → Option (TSessions × Option CString)
  | .setup session uri pointer =>
    match host.srcDir uri, session with
    | none, _ => none
    | some none, _ => some (sessions, none)
    | some (some _), some _ => some (sessions, none)
    | some (some dir), none => some (sessions.insert pointer ⟨dir, 0, []⟩, none)
  | .play session uri => some (sessions.modify session fun item => { item with uri := uri, status := 1 }, none)
  | .pause session => some (sessions.modify session fun item => { item with status := 2 }, none)
  | .teardown session =>
    some (sessions.erase session, (sessions session).bind fun item => host.deleteCommand item.uri)
  | .ended session =>
    match sessions session with
    | none => none
    | some item =>
      if item.status = 1 then some (sessions.erase session, host.deleteCommand item.uri) else none

/-- The requests which were handled, the last one first, and the sessions after them. -/
inductive Served (host : Host) : List Request → TSessions → Prop
  | start : Served host [] fun _ => none
  | step {history : List Request} {sessions sessions' : TSessions} {request : Request} {command : Option CString}
      (h : Served host history sessions) (hserve : host.serve sessions request = some (sessions', command)) :
      Served host (request :: history) sessions'

/-- The directory which was opened for a session, unless it was closed again. -/
def openedDir (host : Host) (name : CString) : List Request → Option CString
  | [] => none
  | .setup none uri pointer :: history =>
    if pointer = name then (openedDir host name history).or (host.srcDir uri).join
    else openedDir host name history
  | .teardown session :: history => if session = name then none else openedDir host name history
  | .ended session :: history => if session = name then none else openedDir host name history
  | _ :: history => openedDir host name history

/-- The address with which a session was played last. -/
def playedUri (host : Host) (name : CString) : List Request → Option CString
  | [] => none
  | .play session uri :: history =>
    if session = name ∧ (openedDir host name history).isSome then some uri else playedUri host name history
  | .teardown session :: history => if session = name then none else playedUri host name history
  | .ended session :: history => if session = name then none else playedUri host name history
  | _ :: history => playedUri host name history

variable {host : Host} {history : List Request} {sessions : TSessions}

/-- What the server knows of a session is what the history says. -/
structure Known (host : Host) (history : List Request) (sessions : TSessions) (name : CString) : Prop where
  fields : (sessions name).map (fun item => (item.media, item.uri)) =
    (openedDir host name history).map fun dir => (dir, (playedUri host name history).getD [])
  unplayed : openedDir host name history = none → playedUri host name history = none

namespace Known

variable {name : CString}

/-- A session is not there, or it has the directory and the address of the history. -/
theorem cases (h : Known host history sessions name) :
    (openedDir host name history = none ∧ playedUri host name history = none ∧ sessions name = none) ∨
      ∃ item, sessions name = some item ∧ openedDir host name history = some item.media ∧
        item.uri = (playedUri host name history).getD [] := by
  obtain ⟨hfields, hunplayed⟩ := h
  cases hopened : openedDir host name history with
  | none =>
    rw [hopened, Option.map_none, Option.map_eq_none_iff] at hfields
    exact Or.inl ⟨rfl, hunplayed hopened, hfields⟩
  | some dir =>
    rw [hopened, Option.map_some] at hfields
    obtain ⟨item, hitem, hboth⟩ := Option.map_eq_some_iff.mp hfields
    obtain ⟨hmedia, huri⟩ := Prod.mk.inj hboth
    exact Or.inr ⟨item, hitem, congrArg some hmedia.symm, huri⟩

/-- A new session has a new name, or the one which has it stays. -/
theorem insert (h : Known host history sessions name) {uri pointer dir : CString}
    (hdir : host.srcDir uri = some (some dir)) :
    Known host (.setup none uri pointer :: history) (sessions.insert pointer ⟨dir, 0, []⟩) name := by
  by_cases hname : name = pointer
  · rcases h.cases with ⟨hopened, hplayed, hitem⟩ | ⟨item, hitem, hopened, huri⟩
    · constructor <;> simp [TSessions.insert, openedDir, playedUri, hdir, hname.symm, hopened, hplayed, hitem]
    · constructor <;> simp [TSessions.insert, openedDir, playedUri, hname.symm, hopened, hitem, huri]
  · obtain ⟨hfields, hunplayed⟩ := h
    simp only [← ne_eq] at hname
    constructor <;> simpa [TSessions.insert, openedDir, playedUri, hname, hname.symm]

/-- Playing a session which is there sets its address. -/
theorem play (h : Known host history sessions name) (session uri : CString) :
    Known host (.play session uri :: history)
      (sessions.modify session fun item => { item with uri := uri, status := 1 }) name := by
  by_cases hname : name = session
  · rcases h.cases with ⟨hopened, hplayed, hitem⟩ | ⟨item, hitem, hopened, huri⟩
    · constructor <;> simp [TSessions.modify, openedDir, playedUri, hname.symm, hopened, hplayed, hitem]
    · constructor <;> simp [TSessions.modify, openedDir, playedUri, hname.symm, hopened, hitem]
  · obtain ⟨hfields, hunplayed⟩ := h
    simp only [← ne_eq] at hname
    constructor <;> simpa [TSessions.modify, openedDir, playedUri, hname, hname.symm]

theorem pause (h : Known host history sessions name) (session : CString) :
    Known host (.pause session :: history)
      (sessions.modify session fun item => { item with status := 2 }) name := by
  refine ⟨?_, h.unplayed⟩
  simp only [TSessions.modify, openedDir, playedUri, ← h.fields]
  split
  · rw [Option.map_map]
    rfl
  · rfl

/-- Nothing is known of a session which was closed. -/
theorem erase (h : Known host history sessions name) {session : CString} {request : Request}
    (hrequest : request = .teardown session ∨ request = .ended session) :
    Known host (request :: history) (sessions.erase session) name := by
  have hopened : openedDir host name (request :: history) =
      if session = name then none else openedDir host name history := by
    rcases hrequest with rfl | rfl <;> rfl
  have hplayed : playedUri host name (request :: history) =
      if session = name then none else playedUri host name history := by
    rcases hrequest with rfl | rfl <;> rfl
  obtain ⟨hfields, hunplayed⟩ := h
  by_cases hname : session = name
  · constructor <;> simp [TSessions.erase, hopened, hplayed, hname]
  · refine ⟨?_, ?_⟩ <;> rw [hopened, hplayed, if_neg hname, if_neg hname]
    · rw [TSessions.erase, if_neg (Ne.symm hname)]
      exact hfields
    · exact hunplayed

/-- Every request keeps it. -/
theorem serve (h : Known host history sessions name) {request : Request} {sessions' : TSessions}
    {command : Option CString} (hserve : host.serve sessions request = some (sessions', command)) :
    Known host (request :: history) sessions' name := by
  cases request with
  | setup session uri pointer =>
    cases hdir : host.srcDir uri with
    | none => simp [Host.serve, hdir] at hserve
    | some accepted =>
      cases accepted with
      | none =>
        have hsame : sessions = sessions' := by cases session <;> simp_all [Host.serve]
        obtain ⟨hfields, hunplayed⟩ := hsame ▸ h
        cases session with
        | none => constructor <;> simpa [openedDir, playedUri, hdir]
        | some session => exact ⟨hfields, hunplayed⟩
      | some dir =>
        cases session with
        | none =>
          simp only [Host.serve, hdir] at hserve
          obtain ⟨rfl, -⟩ := Prod.mk.inj (Option.some.inj hserve)
          exact h.insert hdir
        | some session =>
          simp only [Host.serve, hdir] at hserve
          obtain ⟨rfl, -⟩ := Prod.mk.inj (Option.some.inj hserve)
          exact ⟨h.fields, h.unplayed⟩
  | play session uri =>
    obtain ⟨rfl, -⟩ := Prod.mk.inj (Option.some.inj hserve)
    exact h.play session uri
  | pause session =>
    obtain ⟨rfl, -⟩ := Prod.mk.inj (Option.some.inj hserve)
    exact h.pause session
  | teardown session =>
    obtain ⟨rfl, -⟩ := Prod.mk.inj (Option.some.inj hserve)
    exact h.erase (Or.inl rfl)
  | ended session =>
    simp only [Host.serve] at hserve
    split at hserve
    · nomatch hserve
    · split at hserve
      · obtain ⟨rfl, -⟩ := Prod.mk.inj (Option.some.inj hserve)
        exact h.erase (Or.inr rfl)
      · nomatch hserve

end Known

/-- The server knows of each session what the history of its requests says. -/
theorem Served.known (h : Served host history sessions) (name : CString) : Known host history sessions name := by
  induction h with
  | start => exact ⟨rfl, fun _ => rfl⟩
  | step h hserve ih => exact ih.serve hserve

end RecordingAgent.RtspPlay
