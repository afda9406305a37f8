import RecordingAgent.Reagent.CfgTags
import RecordingAgent.Reagent.Probe
import RecordingAgent.Reagent.Timer

/-!
# The host of an address

When a camera answers from another address, this is put into its pages in place of the host. The host is taken
to end at the first colon behind the scheme, or at the first slash if there is no colon. A password, a host
without a port and a page behind it make this another place.
-/

namespace RecordingAgent.Reagent

open Foundation

/-- The scheme of a camera's page. -/
inductive UrlScheme
  | http
  | rtsp
  deriving DecidableEq

/-- `http://` -/
def httpPrefix : CString := ['h', 't', 't', 'p', ':', '/', '/']

/-- `rtsp://` -/
def rtspPrefix : CString := ['r', 't', 's', 'p', ':', '/', '/']

/-- What a page of the scheme begins with. -/
def UrlScheme.text : UrlScheme → CString
  | .http => httpPrefix
  | .rtsp => rtspPrefix

/-- The parts of a page: scheme, user and password, host, port, what follows the first slash, and the query.
Only the literal of an address in brackets has a colon in the host. -/
structure Url where
  scheme : UrlScheme
  user : Option (CString × Option CString)
  host : CString
  port : Option CString
  path : Option CString
  query : Option CString
  user_clear : ∀ u ∈ user, ∀ c ∈ [':', '@', '/', '?'], c ∉ u.1
  password_clear : ∀ u ∈ user, ∀ password ∈ u.2, ∀ c ∈ ['@', '/', '?'], c ∉ password
  host_ne_nil : host ≠ []
  host_clear : ∀ c ∈ ['@', '/', '?'], c ∉ host
  host_literal : ':' ∈ host → host.head? = some '[' ∧ host.getLast? = some ']'
  port_digits : ∀ p ∈ port, p ≠ [] ∧ ∀ c ∈ p, c.isDigit = true
  path_clear : ∀ p ∈ path, '?' ∉ p

namespace Url

/-- User and password, up to the sign behind them. -/
def credentials (url : Url) : CString :=
  match url.user with
  | none => []
  | some (user, none) => user ++ ['@']
  | some (user, some password) => user ++ ':' :: (password ++ ['@'])

/-- What follows the host. -/
def tail (url : Url) : CString :=
  (url.port.elim [] fun port => ':' :: port) ++ (url.path.elim [] fun path => '/' :: path) ++
    (url.query.elim [] fun query => '?' :: query)

/-- The text of a page. -/
def text (url : Url) : CString := url.scheme.text ++ (url.credentials ++ (url.host ++ url.tail))

end Url

/-- The characters of an address. -/
theorem mem_inetNtoa {ip : Ipv4} {c : Char} (h : c ∈ inetNtoa ip) : c.isDigit = true ∨ c = '.' := by
  have hdigits : ∀ n : ℕ, c ∈ Nat.toDigits 10 n → c.isDigit = true := fun n hc =>
    Nat.isDigit_of_mem_toDigits (by decide) (by decide) hc
  simp only [inetNtoa, List.mem_append, List.mem_cons] at h
  rcases h with h | h | h | h | h | h | h
  · exact Or.inl (hdigits _ h)
  · exact Or.inr h
  · exact Or.inl (hdigits _ h)
  · exact Or.inr h
  · exact Or.inl (hdigits _ h)
  · exact Or.inr h
  · exact Or.inl (hdigits _ h)

theorem inetNtoa_clear (ip : Ipv4) : ∀ c ∈ [':', '@', '/', '?', '['], c ∉ inetNtoa ip := by
  intro c hc hmem
  have hother : ∀ c ∈ [':', '@', '/', '?', '['], ¬ (c.isDigit = true ∨ c = '.') := by simp
  exact hother c hc (mem_inetNtoa hmem)

theorem inetNtoa_ne_nil (ip : Ipv4) : inetNtoa ip ≠ [] :=
  List.append_ne_nil_of_right_ne_nil _ (List.cons_ne_nil _ _)

namespace Url

/-- The page at another address. -/
def withHost (url : Url) (ip : Ipv4) : Url where
  scheme := url.scheme
  user := url.user
  host := inetNtoa ip
  port := url.port
  path := url.path
  query := url.query
  user_clear := url.user_clear
  password_clear := url.password_clear
  host_ne_nil := inetNtoa_ne_nil ip
  host_clear := by
    intro c hc
    apply inetNtoa_clear ip c
    simp only [List.mem_cons] at hc ⊢
    tauto
  host_literal := fun h => absurd h (inetNtoa_clear ip ':' (by decide))
  port_digits := url.port_digits
  path_clear := url.path_clear

end Url

/-- An address that fits takes the place of the host and of nothing else, and giving it again changes nothing. -/
def ReplacesHost (url : Url) (ip : Ipv4) : Prop :=
  url.text.length < maxUri → (url.withHost ip).text.length < maxUri →
    replaceIp url.text (inetNtoa ip) = (url.withHost ip).text ∧
      replaceIp (replaceIp url.text (inetNtoa ip)) (inetNtoa ip) = replaceIp url.text (inetNtoa ip)

/-- What is taken for the host at the beginning of a text: it ends at the first colon, or else at the first slash. -/
def guessedHost (text : CString) : Option CString := ((strchr text ':').or (strchr text '/')).map text.take

namespace Url

/-- What follows a second `http://`, which an `rtsp` page can have behind its first slash. There the host is looked
for. -/
def inner (url : Url) : Option CString :=
  match url.scheme with
  | .http => none
  | .rtsp => following httpPrefix url.tail

/-- The first delimiter stands behind the host: there is neither a user nor a literal, and a port, or else a path
without a colon behind the host. -/
def HostFound (url : Url) : Prop :=
  url.user = none ∧ ':' ∉ url.host ∧ (url.port ≠ none ∨ (url.path ≠ none ∧ ':' ∉ url.tail))

/-- Another text is taken for the host, but nothing changes: the host has the address already, and so has the user,
before a password, or there is no delimiter. -/
def UnchangedAt (url : Url) (ip : CString) : Prop :=
  url.host = ip ∧ ((∃ password, url.user = some (ip, some password)) ∨
    (':' ∉ url.credentials ++ url.tail ∧ '/' ∉ url.tail))

/-- What is taken for the host is the host, or has the address as well as the host. -/
def Replaceable (url : Url) (ip : CString) : Prop :=
  match url.inner with
  | none => url.HostFound ∨ url.UnchangedAt ip
  | some rest => url.host = ip ∧ ∀ host, guessedHost rest = some host → host = ip

end Url

/-! ## Where the host is looked for -/

/-- A text with the part that is taken for the host replaced. -/
def swapHost (ip text : CString) : CString :=
  match (strchr text ':').or (strchr text '/') with
  | none => text
  | some length => ip ++ text.drop length

/-- Where a text is split: nowhere, or before the first delimiter. -/
theorem swapHost_cases (text : CString) :
    (':' ∉ text ∧ '/' ∉ text ∧ guessedHost text = none ∧ ∀ ip, swapHost ip text = text) ∨
      ∃ host c rest, text = host ++ c :: rest ∧ c ∉ host ∧ (c = ':' ∨ (c = '/' ∧ ':' ∉ text)) ∧
        guessedHost text = some host ∧ ∀ ip, swapHost ip text = ip ++ c :: rest := by
  by_cases hcolon : ':' ∈ text
  · obtain ⟨host, rest, rfl, hfirst⟩ := List.eq_append_cons_of_mem hcolon
    refine Or.inr ⟨host, ':', rest, rfl, hfirst, Or.inl rfl, ?_, fun ip => ?_⟩
    · rw [guessedHost, strchr_append hfirst, Option.some_or, Option.map_some, List.take_left]
    · rw [swapHost, strchr_append hfirst, Option.some_or]
      exact congrArg (ip ++ ·) List.drop_left
  by_cases hslash : '/' ∈ text
  · obtain ⟨host, rest, rfl, hfirst⟩ := List.eq_append_cons_of_mem hslash
    refine Or.inr ⟨host, '/', rest, rfl, hfirst, Or.inr ⟨rfl, hcolon⟩, ?_, fun ip => ?_⟩
    · rw [guessedHost, strchr_eq_none_iff.mpr hcolon, strchr_append hfirst, Option.none_or, Option.map_some,
        List.take_left]
    · rw [swapHost, strchr_eq_none_iff.mpr hcolon, strchr_append hfirst, Option.none_or]
      exact congrArg (ip ++ ·) List.drop_left
  · refine Or.inl ⟨hcolon, hslash, ?_, fun ip => ?_⟩
    · rw [guessedHost, strchr_eq_none_iff.mpr hcolon, strchr_eq_none_iff.mpr hslash]
      rfl
    · rw [swapHost, strchr_eq_none_iff.mpr hcolon, strchr_eq_none_iff.mpr hslash]
      rfl

/-- The host is looked for behind the scheme which was found. -/
theorem replaceIp_of_offset {str : CString} {offset : ℕ}
    (h : (strstr str httpPrefix).or (strstr str rtspPrefix) = some offset) (ip : CString) :
    replaceIp str ip = str.take (offset + 7) ++ swapHost ip (str.drop (offset + 7)) := by
  unfold replaceIp swapHost
  rw [show ['h', 't', 't', 'p', ':', '/', '/'] = httpPrefix from rfl,
    show ['r', 't', 's', 'p', ':', '/', '/'] = rtspPrefix from rfl, h]
  simp only
  cases (strchr (str.drop (offset + 7)) ':').or (strchr (str.drop (offset + 7)) '/') with
  | none => exact (List.take_append_drop _ _).symm
  | some length =>
    change str.take (offset + 7) ++ ip ++ str.drop (offset + 7 + length) =
      str.take (offset + 7) ++ (ip ++ (str.drop (offset + 7)).drop length)
    rw [List.append_assoc, List.drop_drop]

namespace Url

variable {url : Url} {ip : Ipv4}

/-- What can follow the host. -/
theorem tail_cases (url : Url) :
    (url.tail = [] ∧ url.port = none ∧ url.path = none) ∨
      (∃ d rest, d.isDigit = true ∧ url.tail = ':' :: d :: rest ∧ url.port ≠ none) ∨
      (∃ rest, url.tail = '/' :: rest ∧ url.port = none ∧ url.path ≠ none) ∨
      ∃ rest, url.tail = '?' :: rest ∧ url.port = none ∧ url.path = none := by
  unfold tail
  cases hport : url.port with
  | some port =>
    obtain ⟨hne, hdigits⟩ := url.port_digits port hport
    obtain ⟨d, port', rfl⟩ := List.exists_cons_of_ne_nil hne
    exact Or.inr (Or.inl ⟨d, _, hdigits d List.mem_cons_self, rfl, Option.some_ne_none _⟩)
  | none =>
    cases hpath : url.path with
    | some path => exact Or.inr (Or.inr (Or.inl ⟨_, rfl, rfl, Option.some_ne_none path⟩))
    | none =>
      cases url.query with
      | none => exact Or.inl ⟨rfl, rfl, rfl⟩
      | some query => exact Or.inr (Or.inr (Or.inr ⟨_, rfl, rfl, rfl⟩))

/-- The first character behind the host, and the one behind a colon there. -/
theorem head_of_tail {c : Char} {rest : CString} (h : url.tail = c :: rest) :
    (c = ':' ∧ ∀ d, rest.head? = some d → d.isDigit = true) ∨ c = '/' ∨ c = '?' := by
  rcases url.tail_cases with ⟨hnil, -⟩ | ⟨d, rest', hd, hport, -⟩ | ⟨rest', hpath, -⟩ | ⟨rest', hquery, -⟩
  · rw [hnil] at h
    cases h
  · rw [hport] at h
    obtain ⟨rfl, rfl⟩ := List.cons.inj h
    refine Or.inl ⟨rfl, fun e he => ?_⟩
    rw [← Option.some.inj he]
    exact hd
  · rw [hpath] at h
    exact Or.inr (Or.inl (List.cons.inj h).1.symm)
  · rw [hquery] at h
    exact Or.inr (Or.inr (List.cons.inj h).1.symm)

theorem not_letter_of_tail {c : Char} {rest : CString} (h : url.tail = c :: rest) : ¬ c ∉ [':', '/', '?'] := by
  intro hletter
  simp only [List.mem_cons, List.not_mem_nil, or_false, not_or] at hletter
  rcases head_of_tail h with ⟨heq, -⟩ | heq | heq
  · exact hletter.1 heq
  · exact hletter.2.1 heq
  · exact hletter.2.2 heq

theorem slash_notMem_credentials (url : Url) : '/' ∉ url.credentials := by
  unfold credentials
  cases huser : url.user with
  | none => exact List.not_mem_nil
  | some u =>
    obtain ⟨user, password⟩ := u
    have huserClear := url.user_clear _ huser '/' (by decide)
    cases password with
    | none => simpa using huserClear
    | some password =>
      have hpassword := url.password_clear _ huser password rfl '/' (by decide)
      simpa using ⟨huserClear, hpassword⟩

/-- The host ends in no colon. -/
theorem getLast?_host_ne (url : Url) : url.host.getLast? ≠ some ':' := by
  intro hlast
  have hliteral := url.host_literal (List.mem_of_getLast? hlast)
  rw [hliteral.2] at hlast
  exact absurd hlast (by decide)

/-- A second `http://` begins behind the host. -/
theorem not_begins_before_tail (url : Url) :
    ∀ k < (url.credentials ++ url.host).length,
      ¬ httpPrefix <+: ((url.credentials ++ url.host) ++ url.tail).drop k := by
  intro k hk hprefix
  have hslash : '/' ∉ url.credentials ++ url.host := by
    rw [List.mem_append, not_or]
    exact ⟨url.slash_notMem_credentials, url.host_clear '/' (by decide)⟩
  rw [List.drop_append_of_le_length hk.le] at hprefix
  have hlast : ((url.credentials ++ url.host).drop k).getLast? ≠ some ':' := by
    obtain ⟨c, hc⟩ := Option.ne_none_iff_exists'.mp (mt List.getLast?_eq_none_iff.mp url.host_ne_nil)
    rw [List.getLast?_drop, if_neg (not_le.mpr hk), List.getLast?_append, hc, Option.some_or, ← hc]
    exact url.getLast?_host_ne
  have hne : (url.credentials ++ url.host).drop k ≠ [] := mt List.drop_eq_nil_iff.mp (not_le.mpr hk)
  have hclear : '/' ∉ (url.credentials ++ url.host).drop k := fun h => hslash (List.mem_of_mem_drop h)
  generalize (url.credentials ++ url.host).drop k = behind at hprefix hlast hne hclear
  obtain ⟨rest, hrest⟩ := hprefix
  rcases List.append_eq_append_iff.mp hrest with ⟨more, hmore, -⟩ | ⟨more, hmore, htail⟩
  · exact hclear (by rw [hmore]; simp [httpPrefix])
  -- what stands before the tail is one of the beginnings of `http:`
  have hinit : behind ∈ httpPrefix.inits := (List.mem_inits _ _).mpr ⟨more, hmore.symm⟩
  simp only [httpPrefix, List.inits, List.mem_cons, List.map_cons, List.map_nil, List.not_mem_nil, or_false] at hinit
  rcases hinit with rfl | rfl | rfl | rfl | rfl | rfl | rfl | rfl
  · exact hne rfl
  · obtain rfl : more = ['t', 't', 'p', ':', '/', '/'] := by simpa [httpPrefix] using hmore.symm
    exact not_letter_of_tail htail (by decide)
  · obtain rfl : more = ['t', 'p', ':', '/', '/'] := by simpa [httpPrefix] using hmore.symm
    exact not_letter_of_tail htail (by decide)
  · obtain rfl : more = ['p', ':', '/', '/'] := by simpa [httpPrefix] using hmore.symm
    exact not_letter_of_tail htail (by decide)
  · obtain rfl : more = [':', '/', '/'] := by simpa [httpPrefix] using hmore.symm
    rcases head_of_tail htail with ⟨-, hport⟩ | h | h
    · exact absurd (hport '/' rfl) (by decide)
    · exact absurd h (by decide)
    · exact absurd h (by decide)
  · exact hlast rfl
  · exact hclear (by decide)
  · exact hclear (by decide)

/-- Where a second `http://` is found in an `rtsp` page. -/
theorem strstr_rtsp (url : Url) :
    strstr (rtspPrefix ++ (url.credentials ++ (url.host ++ url.tail))) httpPrefix =
      (strstr url.tail httpPrefix).map fun k => 7 + ((url.credentials ++ url.host).length + k) := by
  have hscheme : ∀ k < rtspPrefix.length, ¬ httpPrefix <+:
      (rtspPrefix ++ (url.credentials ++ (url.host ++ url.tail))).drop k := not_begins_of_notMem (by decide)
  rw [strstr_append_of_not_begins hscheme, ← List.append_assoc, strstr_append_of_not_begins url.not_begins_before_tail,
    Option.map_map]
  rfl

/-- The host is looked for behind the scheme, unless there is a second `http://`. -/
theorem replaceIp_text (h : url.inner = none) (ip : CString) :
    replaceIp url.text ip = url.scheme.text ++ swapHost ip (url.credentials ++ (url.host ++ url.tail)) := by
  have hoffset : (strstr url.text httpPrefix).or (strstr url.text rtspPrefix) = some 0 := by
    unfold text
    cases hscheme : url.scheme with
    | http => rw [UrlScheme.text, strstr_append, Option.some_or]
    | rtsp =>
      have hnone : strstr url.tail httpPrefix = none := by
        unfold inner at h
        rw [hscheme] at h
        exact Option.map_eq_none_iff.mp h
      rw [UrlScheme.text, strstr_rtsp, hnone, Option.map_none, Option.none_or, strstr_append]
  have hlength : url.scheme.text.length = 0 + 7 := by cases url.scheme <;> rfl
  rw [replaceIp_of_offset hoffset, text, ← hlength, List.take_left, List.drop_left]

/-- Behind a second `http://` the host is looked for there. -/
theorem replaceIp_text_of_inner {rest : CString} (h : url.inner = some rest) :
    ∃ c before, url.tail = c :: (before ++ (httpPrefix ++ rest)) ∧ c ∈ [':', '/', '?'] ∧ ∀ ip, replaceIp url.text ip =
      url.scheme.text ++ (url.credentials ++ (url.host ++ c :: (before ++ (httpPrefix ++ swapHost ip rest)))) := by
  unfold inner at h
  cases hscheme : url.scheme with
  | http =>
    rw [hscheme] at h
    cases h
  | rtsp =>
    rw [hscheme] at h
    obtain ⟨k, hk, hrest⟩ := Option.map_eq_some_iff.mp h
    have htail : url.tail = url.tail.take k ++ (httpPrefix ++ rest) := by
      rw [← hrest]
      exact (eq_of_strstr hk).2
    cases hbefore : url.tail.take k with
    | nil =>
      rw [hbefore] at htail
      exact absurd (by decide) (not_letter_of_tail htail)
    | cons c before =>
      have hlength : (url.tail.take k).length = k := List.length_take_of_le (eq_of_strstr hk).1
      rw [hbefore] at htail hlength
      refine ⟨c, before, htail, not_not.mp (not_letter_of_tail htail), fun ip => ?_⟩
      have hoffset : (strstr url.text httpPrefix).or (strstr url.text rtspPrefix) =
          some (7 + ((url.credentials ++ url.host).length + k)) := by
        rw [text, hscheme, UrlScheme.text, strstr_rtsp, hk, Option.map_some, Option.some_or]
      have htext : url.text =
          (rtspPrefix ++ (url.credentials ++ (url.host ++ c :: (before ++ httpPrefix)))) ++ rest := by
        rw [text, hscheme, UrlScheme.text, htail]
        simp only [List.append_assoc, List.cons_append]
      have hsplit : 7 + ((url.credentials ++ url.host).length + k) + 7 =
          (rtspPrefix ++ (url.credentials ++ (url.host ++ c :: (before ++ httpPrefix)))).length := by
        simp only [List.length_append, List.length_cons, rtspPrefix, httpPrefix, List.length_nil, ← hlength]
        omega
      rw [replaceIp_of_offset hoffset, hsplit, htext, List.take_left, List.drop_left]
      simp only [List.append_assoc, List.cons_append, UrlScheme.text]

/-! ## What is put in its place -/

/-- A text is split at the first of a character in one way only. -/
theorem split_unique {h h' r r' : CString} {c : Char} (hc : c ∉ h) (hc' : c ∉ h') :
    h ++ c :: r = h' ++ c :: r' ↔ h = h' ∧ r = r' := by
  refine ⟨fun heq => ?_, fun ⟨hh, hr⟩ => by rw [hh, hr]⟩
  induction h generalizing h' with
  | nil =>
    cases h' with
    | nil => exact ⟨rfl, (List.cons.inj heq).2⟩
    | cons d h' => exact absurd ((List.cons.inj heq).1 ▸ List.mem_cons_self) hc'
  | cons e h ih =>
    cases h' with
    | nil => exact absurd ((List.cons.inj heq).1 ▸ List.mem_cons_self) hc
    | cons d h' =>
      obtain ⟨rfl, hrest⟩ := List.cons.inj heq
      have hsame := ih (fun hmem => hc (List.mem_cons_of_mem e hmem))
        (fun hmem => hc' (List.mem_cons_of_mem e hmem)) hrest
      exact ⟨congrArg (e :: ·) hsame.1, hsame.2⟩

/-- Without a delimiter around the host there is none in the page. -/
theorem no_delimiter (hhost : url.host = inetNtoa ip) (hcolon : ':' ∉ url.credentials ++ url.tail)
    (hslash : '/' ∉ url.tail) :
    ':' ∉ url.credentials ++ (url.host ++ url.tail) ∧ '/' ∉ url.credentials ++ (url.host ++ url.tail) := by
  have hip := inetNtoa_clear ip
  have hcredentials := url.slash_notMem_credentials
  simp only [List.mem_append, not_or] at hcolon ⊢
  rw [hhost]
  exact ⟨⟨hcolon.1, hip ':' (by decide), hcolon.2⟩, hcredentials, hip '/' (by decide), hslash⟩

/-- What follows the host begins with a delimiter that is the first there. -/
def Delimited (url : Url) : Prop :=
  url.tail.head? = some ':' ∨ (url.tail.head? = some '/' ∧ ':' ∉ url.tail)

/-- It does if there is a port, or else a path without a colon behind the host. -/
theorem delimited_iff (url : Url) :
    url.Delimited ↔ url.port ≠ none ∨ (url.path ≠ none ∧ ':' ∉ url.tail) := by
  unfold Delimited
  rcases url.tail_cases with ⟨htail, hport, hpath⟩ | ⟨d, rest, -, htail, hport⟩ | ⟨rest, htail, hport, hpath⟩ |
    ⟨rest, htail, hport, hpath⟩
  · simp [htail, hport, hpath]
  · simp [htail, hport]
  · simp [htail, hport, hpath]
  · simp [htail, hport, hpath]

/-- The first delimiter of a page without a user stands behind the host exactly when the host has no colon and what
follows it begins with the delimiter. -/
theorem delimiter_behind_host_iff {h r : CString} {c : Char} (htext : url.host ++ url.tail = h ++ c :: r) (hc : c ∉ h)
    (hdelimiter : c = ':' ∨ (c = '/' ∧ ':' ∉ url.host ++ url.tail)) :
    c :: r = url.tail ↔ ':' ∉ url.host ∧ url.Delimited := by
  constructor
  · intro heq
    obtain rfl : url.host = h := by
      rw [heq] at htext
      exact List.append_cancel_right htext
    rcases hdelimiter with rfl | ⟨rfl, hcolon⟩
    · exact ⟨hc, Or.inl (by rw [← heq, List.head?_cons])⟩
    · rw [List.mem_append, not_or] at hcolon
      exact ⟨hcolon.1, Or.inr ⟨by rw [← heq, List.head?_cons], hcolon.2⟩⟩
  · rintro ⟨hhost, hhead | ⟨hhead, htail⟩⟩
    · obtain ⟨rest, hrest⟩ := List.head?_eq_some_iff.mp hhead
      rcases hdelimiter with rfl | ⟨-, hcolon⟩
      · rw [hrest] at htext ⊢
        rw [((split_unique hhost hc).mp htext).2]
      · exact absurd (List.mem_append_right _ (hrest ▸ List.mem_cons_self)) hcolon
    · obtain ⟨rest, hrest⟩ := List.head?_eq_some_iff.mp hhead
      rcases hdelimiter with rfl | ⟨rfl, -⟩
      · have hmem : ':' ∈ url.host ++ url.tail := htext ▸ List.mem_append_right h List.mem_cons_self
        exact ((List.mem_append.mp hmem).elim hhost htail).elim
      · rw [hrest] at htext ⊢
        rw [((split_unique (url.host_clear '/' (by decide)) hc).mp htext).2]

/-- A page without delimiters is left alone. -/
theorem swapHost_eq_iff_of_none (hcolon : ':' ∉ url.credentials ++ (url.host ++ url.tail))
    (hslash : '/' ∉ url.credentials ++ (url.host ++ url.tail)) :
    url.credentials ++ (url.host ++ url.tail) = url.credentials ++ (inetNtoa ip ++ url.tail) ↔
      url.HostFound ∨ url.UnchangedAt (inetNtoa ip) := by
  simp only [List.mem_append, not_or] at hcolon hslash
  have hnotFound : ¬ url.HostFound := by
    rintro ⟨-, -, hfound⟩
    rcases (delimited_iff url).mpr hfound with hhead | ⟨hhead, -⟩
    · exact hcolon.2.2 (List.mem_of_head? hhead)
    · exact hslash.2.2 (List.mem_of_head? hhead)
  rw [or_iff_right hnotFound, List.append_cancel_left_eq, List.append_cancel_right_eq]
  refine ⟨fun hhost => ⟨hhost, Or.inr ⟨?_, hslash.2.2⟩⟩, fun h => h.1⟩
  rw [List.mem_append, not_or]
  exact ⟨hcolon.1, hcolon.2.2⟩

/-- A user is replaced before a password, and otherwise something behind the user. -/
theorem swapHost_user_iff {h r : CString} {c : Char} {u : CString × Option CString} (huser : url.user = some u)
    (htext : url.credentials ++ (url.host ++ url.tail) = h ++ c :: r) (hc : c ∉ h)
    (hdelimiter : c = ':' ∨ (c = '/' ∧ ':' ∉ url.credentials ++ (url.host ++ url.tail))) :
    inetNtoa ip ++ c :: r = url.credentials ++ (inetNtoa ip ++ url.tail) ↔
      url.host = inetNtoa ip ∧ ∃ password, url.user = some (inetNtoa ip, some password) := by
  obtain ⟨user, password⟩ := u
  have huserClear := url.user_clear _ huser
  have hip := inetNtoa_clear ip
  cases password with
  | some password =>
    have hcredentials : url.credentials = user ++ ':' :: (password ++ ['@']) := by rw [credentials, huser]
    rw [hcredentials] at htext hdelimiter ⊢
    simp only [List.append_assoc, List.cons_append, List.nil_append] at htext hdelimiter ⊢
    obtain rfl : c = ':' := hdelimiter.resolve_right fun h => h.2 (by simp)
    obtain ⟨rfl, hr⟩ := (split_unique (huserClear ':' (by decide)) hc).mp htext
    rw [split_unique (hip ':' (by decide)) hc, ← hr, List.append_cancel_left_eq, List.cons.injEq,
      List.append_cancel_right_eq, and_iff_right rfl, huser]
    simp only [Option.some.injEq, Prod.mk.injEq, exists_and_left, exists_eq', and_true]
    exact ⟨fun h => ⟨h.2, h.1.symm⟩, fun h => ⟨h.2.symm, h.1⟩⟩
  | none =>
    have hcredentials : url.credentials = user ++ ['@'] := by rw [credentials, huser]
    refine iff_of_false (fun heq => ?_) fun ⟨_, password, hpassword⟩ => ?_
    · rw [hcredentials] at heq
      have hat : '@' ∉ inetNtoa ip := hip '@' (by decide)
      rcases List.append_eq_append_iff.mp heq with ⟨more, hmore, hrest⟩ | ⟨more, hmore, -⟩
      · cases more with
        | nil => exact hat (by rw [List.append_nil] at hmore; rw [← hmore]; simp)
        | cons d more =>
          obtain ⟨rfl, -⟩ := List.cons.inj hrest
          have hmem : c ∈ user ++ ['@'] := hmore ▸ List.mem_append_right _ List.mem_cons_self
          rcases List.mem_append.mp hmem with hmem | hmem
          · rcases hdelimiter with rfl | ⟨rfl, -⟩
            · exact huserClear ':' (by decide) hmem
            · exact huserClear '/' (by decide) hmem
          · rw [List.mem_singleton.mp hmem] at hdelimiter
            exact absurd hdelimiter (by simp)
      · exact hat (by rw [hmore]; simp)
    · rw [huser] at hpassword
      cases hpassword

/-- Behind the scheme, the address takes the place of the host exactly when the host is found or nothing changes. -/
theorem swapHost_eq_iff (url : Url) (ip : Ipv4) :
    swapHost (inetNtoa ip) (url.credentials ++ (url.host ++ url.tail)) = url.credentials ++ (inetNtoa ip ++ url.tail) ↔
      url.HostFound ∨ url.UnchangedAt (inetNtoa ip) := by
  rcases swapHost_cases (url.credentials ++ (url.host ++ url.tail)) with
    ⟨hcolon, hslash, -, hswap⟩ | ⟨h, c, r, htext, hc, hdelimiter, -, hswap⟩
  · rw [hswap]
    exact swapHost_eq_iff_of_none hcolon hslash
  have hdelimited : ¬ (url.host = inetNtoa ip ∧ ':' ∉ url.credentials ++ url.tail ∧ '/' ∉ url.tail) := by
    rintro ⟨hhost, hcolon, hslash⟩
    obtain ⟨hcolon, hslash⟩ := no_delimiter hhost hcolon hslash
    have hmem : c ∈ url.credentials ++ (url.host ++ url.tail) := htext ▸ List.mem_append_right h List.mem_cons_self
    rcases hdelimiter with rfl | ⟨rfl, -⟩
    · exact hcolon hmem
    · exact hslash hmem
  have hunchanged : url.UnchangedAt (inetNtoa ip) ↔
      url.host = inetNtoa ip ∧ ∃ password, url.user = some (inetNtoa ip, some password) := by
    rw [UnchangedAt, and_or_left, or_iff_left hdelimited]
  rw [hswap, hunchanged]
  cases huser : url.user with
  | none =>
    have hcredentials : url.credentials = [] := by rw [credentials, huser]
    rw [hcredentials, List.nil_append] at htext hdelimiter
    rw [hcredentials, List.nil_append, List.append_cancel_left_eq, delimiter_behind_host_iff htext hc hdelimiter,
      HostFound, huser, ← delimited_iff, and_iff_right rfl, or_iff_left]
    rintro ⟨-, password, h⟩
    cases h
  | some u =>
    have hnotFound : ¬ url.HostFound := fun h => by
      rw [HostFound, huser] at h
      cases h.1
    rw [or_iff_right hnotFound, swapHost_user_iff huser htext hc hdelimiter, huser]

/-- The text behind a second `http://` stays exactly when what is taken for the host there is the address. -/
theorem swapHost_eq_self_iff (ip text : CString) :
    swapHost ip text = text ↔ ∀ host, guessedHost text = some host → host = ip := by
  rcases swapHost_cases text with ⟨-, -, hguess, hswap⟩ | ⟨h, c, r, htext, -, -, hguess, hswap⟩
  · rw [hswap, hguess]
    exact iff_of_true rfl fun host h => absurd h.symm (Option.some_ne_none host)
  · rw [hswap, hguess]
    simp only [Option.some.injEq, forall_eq']
    rw [htext, List.append_cancel_right_eq]
    exact eq_comm

/-- Behind a second `http://` the host itself is never replaced, so it has to have the address already. -/
theorem inner_eq_iff {c : Char} (hc : c ∈ [':', '/', '?']) (before after after' : CString) :
    url.host ++ c :: (before ++ (httpPrefix ++ after)) = inetNtoa ip ++ c :: (before ++ (httpPrefix ++ after')) ↔
      url.host = inetNtoa ip ∧ after = after' := by
  have hip := inetNtoa_clear ip
  have hcip : c ∉ inetNtoa ip := by
    apply hip c
    simp only [List.mem_cons, List.not_mem_nil, or_false] at hc ⊢
    tauto
  constructor
  · intro heq
    by_cases hcolon : ':' ∈ url.host
    · obtain ⟨host, hhost⟩ := List.head?_eq_some_iff.mp (url.host_literal hcolon).1
      obtain ⟨d, rest, hd⟩ := List.exists_cons_of_ne_nil (inetNtoa_ne_nil ip)
      rw [hhost, hd] at heq
      have hhead : '[' = d := (List.cons.inj heq).1
      exact absurd (hd ▸ hhead ▸ List.mem_cons_self) (hip '[' (by decide))
    · have hchost : c ∉ url.host := by
        simp only [List.mem_cons, List.not_mem_nil, or_false] at hc
        rcases hc with rfl | rfl | rfl
        · exact hcolon
        · exact url.host_clear '/' (by decide)
        · exact url.host_clear '?' (by decide)
      obtain ⟨hhost, hrest⟩ := (split_unique hchost hcip).mp heq
      exact ⟨hhost, List.append_cancel_left (List.append_cancel_left hrest)⟩
  · rintro ⟨hhost, rfl⟩
    rw [hhost]

/-- The address takes the place of the host exactly when what is taken for the host is the host, or has the address
as well as the host. -/
theorem replaceIp_eq_iff (url : Url) (ip : Ipv4) :
    replaceIp url.text (inetNtoa ip) = (url.withHost ip).text ↔ url.Replaceable (inetNtoa ip) := by
  have hwith : (url.withHost ip).text = url.scheme.text ++ (url.credentials ++ (inetNtoa ip ++ url.tail)) := rfl
  unfold Replaceable
  cases hinner : url.inner with
  | none => rw [replaceIp_text hinner, hwith, List.append_cancel_left_eq, swapHost_eq_iff]
  | some rest =>
    obtain ⟨c, before, htail, hc, hreplace⟩ := replaceIp_text_of_inner hinner
    rw [hreplace, hwith, htail, List.append_cancel_left_eq, List.append_cancel_left_eq, inner_eq_iff hc,
      swapHost_eq_self_iff]

/-- At the new address the same is taken for the host. -/
theorem Replaceable.withHost (h : url.Replaceable (inetNtoa ip)) : (url.withHost ip).Replaceable (inetNtoa ip) := by
  unfold Replaceable at h ⊢
  have hinner : (url.withHost ip).inner = url.inner := rfl
  rw [hinner]
  cases hcase : url.inner with
  | none =>
    rw [hcase] at h
    rcases h with ⟨huser, -, hfound⟩ | ⟨-, hunchanged⟩
    · exact Or.inl ⟨huser, inetNtoa_clear ip ':' (by decide), hfound⟩
    · exact Or.inr ⟨rfl, hunchanged⟩
  | some rest =>
    rw [hcase] at h
    exact ⟨rfl, h.2⟩

end Url

/-- The address takes the place of the host, and giving it again changes nothing, exactly when what is taken for the
host is the host, or has the address as well as the host. -/
theorem replacesHost_iff (url : Url) (ip : Ipv4) :
    ReplacesHost url ip ↔
      (url.text.length < maxUri → (url.withHost ip).text.length < maxUri → url.Replaceable (inetNtoa ip)) := by
  refine imp_congr_right fun _ => imp_congr_right fun _ => ?_
  rw [Url.replaceIp_eq_iff]
  refine and_iff_left_of_imp fun h => ?_
  have hfirst := (url.replaceIp_eq_iff ip).mpr h
  rw [hfirst]
  exact ((url.withHost ip).replaceIp_eq_iff ip).mpr h.withHost

/-- A page with a user and a password. -/
def userPage : Url where
  scheme := .rtsp
  user := some ("admin".toList, some "secret".toList)
  host := "10.0.0.2".toList
  port := some "554".toList
  path := some "live".toList
  query := none
  user_clear := by simp
  password_clear := by simp
  host_ne_nil := by decide
  host_clear := by simp
  host_literal := by decide
  port_digits := by simp
  path_clear := by simp

/-- The address takes the place of the user. -/
theorem not_replacesHost_user : ¬ ∀ (url : Url) (ip : Ipv4), ReplacesHost url ip := by
  intro h
  have hreplaced := (h userPage ⟨10, 0, 0, 9⟩ (by decide) (by decide)).1
  exact absurd hreplaced (by decide)

end RecordingAgent.Reagent
