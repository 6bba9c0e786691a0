/-
  Slas.Git.ParseUri

  The addresses of remotes (`parse_remote_uri` and `RemoteUri` of `slas_git.hosts`), in three
  forms: with the scheme `https` or `ssh`, and as `scp` has them.

  Theorems:
    lawful_iff — of which texts the parser returns or refuses in its own way, and what it
                 returns is given back by the URLs that are made of it.
-/

import Slas.Git.Remotes
import Slas.Lib.Url
import Mathlib.Data.List.Infix

namespace Slas

namespace Git

open Url (Split Tables Valid urlsplit)

/-! ## The parser -/

/-- What Python takes from the Unicode database, and the form `!r` of a text. -/
structure UriTables extends Tables where
  /-- the class `\w` -/
  isWord : Char → Bool
  repr : String → String
  isWord_ascii : ∀ c : Char, c.toNat < 128 → isWord c = (c.isAlphanum || c == '_')

def LOOPBACK : List (List Char) := ["127.0.0.1".toList, "localhost".toList, "::1".toList]

/-- The groups of `_SCP_LIKE`. -/
structure ScpLike where
  user : List Char
  host : List Char
  path : List Char

variable (T : UriTables)

/-- `[\w.-]` -/
def isUserChar (c : Char) : Bool := T.isWord c || c == '.' || c == '-'

/-- The same with slashes. -/
def isPathChar (c : Char) : Bool := isUserChar T c || c == '/'

/-- The shortest path with `(?:\.git)?/?` after it. -/
def shortest (path : List Char) : List Char :=
  ([".git/".toList, ".git".toList, "/".toList].find? fun ending =>
    ending.isSuffixOf path && ending.length < path.length).elim path fun ending =>
      path.take (path.length - ending.length)

/-- `_SCP_LIKE.match`, of a text without a newline at its end. -/
def scpMatch (text : List Char) : Option ScpLike :=
  let user := text.takeWhile (isUserChar T)
  match text.dropWhile (isUserChar T) with
  | '@' :: rest =>
    let host := rest.takeWhile (isUserChar T)
    match rest.dropWhile (isUserChar T) with
    | ':' :: path =>
      if user ≠ [] ∧ host ≠ [] ∧ path ≠ [] ∧ path.all (isPathChar T) then
        some ⟨user, host, shortest path⟩
      else none
    | _ => none
  | _ => none

/-- The match counts if no `://` is in the text. -/
def scpOf (text : List Char) : Option ScpLike :=
  if text.tails.any ("://".toList.isPrefixOf ·) then none else scpMatch T text

/-- `strip("/")` -/
def stripSlashes (cs : List Char) : List Char := Text.stripBy (· == '/') cs

/-- A path without `.git` at its end. -/
def withoutGit (path : List Char) : List Char :=
  if ".git".toList.isSuffixOf path then path.take (path.length - 4) else path

def notAnAddress (uri : String) : ThreePartMessage where
  whatHappened := T.repr uri ++ " is not a Git address the broker accepts."
  likelyCause := "Use https://host/group/project.git, ssh://git@host/group/project.git or " ++
    "git@host:group/project.git."
  whatToDo := "Fix the address."

def carriesCredential : ThreePartMessage where
  whatHappened := "The address carries a credential."
  likelyCause := "Tokens never go in a URL; the broker injects them at dispatch (INV-14)."
  whatToDo := "Remove the user:token@ part and paste the token in its own field."

def hasNoPath (uri : String) : ThreePartMessage where
  whatHappened := T.repr uri ++ " has no group/project path."
  likelyCause := "A remote names a repository, for example gitlab.internal/firmware/bmc.git."
  whatToDo := "Fix the address."

/-- The protocol of a scheme; `http` only reaches this machine. -/
def protocolOf (scheme host : List Char) : Option Protocol :=
  if scheme = "https".toList then some .https
  else if scheme = "ssh".toList then some .ssh
  else if scheme = "http".toList ∧ LOOPBACK.contains (T.lower host) then some .http
  else none

/-- The remote of a URL. -/
def remoteOf (parts : Split) (scheme : Protocol) (port : Option Nat) : RemoteUri where
  scheme
  hostname := String.ofList (T.lower ((parts.hostname T.toTables).getD []))
  port
  path := String.ofList (withoutGit (stripSlashes parts.path))
  sshUser := if scheme = .ssh then parts.username.map String.ofList else none

/-- What `parse_remote_uri` does with the parts of a URL. -/
def fromSplit (uri : String) (parts : Split) : Except BrokerFailure RemoteUri :=
  let host := (parts.hostname T.toTables).getD []
  let path := withoutGit (stripSlashes parts.path)
  match protocolOf T parts.scheme host with
  | none => .error (.host (notAnAddress T uri))
  | some scheme =>
    if host = [] then .error (.host (notAnAddress T uri))
    else if parts.password ≠ none ∨ (scheme ≠ .ssh ∧ parts.username.getD [] ≠ []) then
      .error (.host carriesCredential)
    else if path = [] ∨ '/' ∉ path then .error (.host (hasNoPath T uri))
    else
      match parts.port with
      | none => .error (.raised "ValueError")
      | some port => .ok (remoteOf T parts scheme port)

/-- The remote of an `scp` address. -/
def remoteOfScp (scp : ScpLike) : RemoteUri where
  scheme := .ssh
  hostname := String.ofList (T.lower scp.host)
  path := String.ofList (stripSlashes scp.path)
  sshUser := some (String.ofList scp.user)

/-- `parse_remote_uri` -/
def parseRemoteUri (uri : String) : Except BrokerFailure RemoteUri :=
  let text := Text.strip uri.toList
  match scpOf T text with
  | some scp => .ok (remoteOfScp T scp)
  | none =>
    match urlsplit T.toTables text with
    | none => .error (.raised "ValueError")
    | some parts => fromSplit T uri parts

/-! ## What is asked of it -/

/-- The same remote, but for the scheme and the user. -/
def SameRemote (u back : RemoteUri) : Prop :=
  back.hostname = u.hostname ∧ back.path = u.path ∧ back.port = u.port

/-- The text, if it is a URL, has no password. -/
def NoPassword (uri : String) : Prop :=
  ∀ parts, urlsplit T.toTables (Text.strip uri.toList) = some parts → parts.password = none

/-- The URLs of a remote that was parsed give it back, and none has a password. -/
structure Faithful (uri : String) (u : RemoteUri) : Prop where
  ssh : ∃ back, parseRemoteUri T u.sshUrl = .ok back ∧ SameRemote u back ∧
    ∀ user, u.sshUser = some user → back.sshUser = some user
  https : ∃ back, parseRemoteUri T (u.httpsUrl "") = .ok back ∧ SameRemote u back
  noPassword : NoPassword T uri ∧ NoPassword T u.sshUrl ∧ NoPassword T (u.httpsUrl "")

/-- The parser returns such a remote or raises `GitHostsError`. -/
def Lawful (uri : String) : Prop :=
  match parseRemoteUri T uri with
  | .ok u => Faithful T uri u
  | .error (.host _) => True
  | .error _ => False

/-- A host with its port, as a URL has them. -/
def netlocOf (host : List Char) (port : Option Nat) : List Char :=
  host ++ port.elim [] fun n => if n = 0 then [] else ':' :: (toString n).toList

/-- Python takes the host, alone and after the user, for a netloc with this host. -/
def Restores (host : List Char) (port : Option Nat) (user : List Char) : Prop :=
  ':' ∉ host ∧ '[' ∉ host ∧ Valid T.toTables (netlocOf host port) ∧
    Valid T.toTables (user ++ '@' :: netlocOf host port)

/-- The checks of the parser pass, but for the port. -/
def Passes (parts : Split) : Prop :=
  let host := (parts.hostname T.toTables).getD []
  (∃ scheme, protocolOf T parts.scheme host = some scheme ∧
    (scheme ≠ .ssh → parts.username.getD [] = [])) ∧ host ≠ [] ∧ parts.password = none ∧
    '/' ∈ withoutGit (stripSlashes parts.path)

/-- An address of a plain form. -/
def PlainAddress (uri : String) : Prop :=
  match scpOf T (Text.strip uri.toList) with
  | some scp => '/' ∈ stripSlashes scp.path ∧ Restores T (T.lower scp.host) none scp.user
  | none => ∃ parts, urlsplit T.toTables (Text.strip uri.toList) = some parts ∧
      (Passes T parts → ∃ port, parts.port = some port ∧ port ≠ some 0 ∧
        (parts.scheme = "ssh".toList → parts.username ≠ some []) ∧
        Restores T (T.lower ((parts.hostname T.toTables).getD [])) port
          (if parts.scheme = "ssh".toList then parts.username.getD "git".toList
            else "git".toList))

variable {T} {uri : String} {u back : RemoteUri} {parts : Split}
  {host path netloc scheme : List Char}
  {port : Option Nat} {c : Char}

/-! ## The parts of a URL -/

/-- What the parser makes of the parts of a URL. -/
theorem fromSplit_cases (T : UriTables) (uri : String) (parts : Split) :
    (¬ Passes T parts ∧ ∃ message, fromSplit T uri parts = .error (.host message)) ∨
      (Passes T parts ∧ ∃ scheme,
        protocolOf T parts.scheme ((parts.hostname T.toTables).getD []) = some scheme ∧
        fromSplit T uri parts = match parts.port with
          | none => .error (.raised "ValueError")
          | some port => .ok (remoteOf T parts scheme port)) := by
  unfold fromSplit Passes
  dsimp only
  cases protocolOf T parts.scheme ((parts.hostname T.toTables).getD []) with
  | none =>
    refine Or.inl ⟨?_, _, rfl⟩
    rintro ⟨⟨scheme, hscheme, -⟩, -⟩
    cases hscheme
  | some scheme =>
    dsimp only
    split_ifs with hhost hsecret hslash
    · exact Or.inl ⟨fun h => h.2.1 hhost, _, rfl⟩
    · refine Or.inl ⟨?_, _, rfl⟩
      rintro ⟨⟨scheme', hscheme', huser⟩, -, hpassword, -⟩
      cases Option.some.inj hscheme'
      rcases hsecret with hsecret | ⟨hssh, hname⟩
      · exact hsecret hpassword
      · exact hname (huser hssh)
    · refine Or.inl ⟨fun h => ?_, _, rfl⟩
      rcases hslash with hnil | hno
      · exact List.not_mem_nil (hnil ▸ h.2.2.2)
      · exact hno h.2.2.2
    · push Not at hsecret hslash
      exact Or.inr ⟨⟨⟨scheme, rfl, hsecret.2⟩, hhost, hsecret.1, hslash.2⟩, scheme, rfl, rfl⟩

theorem withoutGit_append (path : List Char) : withoutGit (path ++ ".git".toList) = path := by
  have hsuffix : (".git".toList.isSuffixOf (path ++ ".git".toList)) = true :=
    List.isSuffixOf_iff_suffix.mpr (List.suffix_append _ _)
  rw [withoutGit, if_pos hsuffix]
  simp

/-- The path of a URL that was made of a path. -/
theorem path_of_url (h : path.head? ≠ some '/') :
    withoutGit (stripSlashes ('/' :: (path ++ ".git".toList))) = path := by
  have htrimmed : Text.stripBy (· == '/') (path ++ ".git".toList) = path ++ ".git".toList := by
    refine Text.stripBy_of_trimmed ⟨fun c hc => ?_, fun c hc => ?_⟩
    · cases path with
      | nil =>
        cases hc
        decide
      | cons d path =>
        cases hc
        simpa using h
    · rw [show ".git".toList = ['.', 'g', 'i'] ++ ['t'] from rfl, ← List.append_assoc,
        List.getLast?_concat] at hc
      cases hc
      decide
  rw [stripSlashes, Text.stripBy_cons (by decide), htrimmed, withoutGit_append]

/-! ## The URLs of a remote -/

/-- The parts of a remote can stand in a URL. -/
structure Plain (T : UriTables) (u : RemoteUri) : Prop where
  host_ne : u.hostname.toList ≠ []
  host_lower : ∀ c ∈ u.hostname.toList, T.isLower c = true
  host_chars : ∀ c ∈ u.hostname.toList, Url.isDelim c = false ∧ Url.isUnsafe c = false
  host_at : '@' ∉ u.hostname.toList
  user_chars : ∀ user, u.sshUser = some user → ∀ c ∈ user.toList,
    Url.isDelim c = false ∧ Url.isUnsafe c = false ∧ c ≠ ':'
  path_chars : ∀ c ∈ u.path.toList, c ≠ '#' ∧ c ≠ '?' ∧ Url.isUnsafe c = false
  path_head : u.path.toList.head? ≠ some '/'
  port_le : ∀ n, u.port = some n → n ≤ 65535
  loopback : u.scheme = .http → u.hostname.toList ∈ LOOPBACK

/-- The user before a host. -/
def whoOf (who : Option (List Char)) : List Char := who.elim [] (· ++ ['@'])

/-- A URL as it is rendered. -/
def urlOf (scheme : List Char) (who : Option (List Char)) (u : RemoteUri) : List Char :=
  scheme ++ ':' :: '/' :: '/' ::
    ((whoOf who ++ netlocOf u.hostname.toList u.port) ++ '/' :: (u.path.toList ++ ".git".toList))

/-- The user of the `ssh` URL. -/
def userOf (u : RemoteUri) : List Char :=
  match u.sshUser with
  | some user => if user = "" then "git".toList else user.toList
  | none => "git".toList

/-- The three schemes that are written. -/
def Written (scheme : List Char) : Prop :=
  scheme = "ssh".toList ∨ scheme = "https".toList ∨ scheme = "http".toList

theorem netloc_toList (u : RemoteUri) :
    u.netloc.toList = netlocOf u.hostname.toList u.port := by
  unfold RemoteUri.netloc netlocOf
  cases u.port with
  | none => simp
  | some port =>
    by_cases hport : port = 0
    · simp [hport]
    · simp [hport]

theorem sshUrl_toList (u : RemoteUri) :
    u.sshUrl.toList = urlOf "ssh".toList (some (userOf u)) u := by
  unfold RemoteUri.sshUrl urlOf whoOf userOf
  simp only [String.toList_append, netloc_toList, Option.elim_some, List.append_assoc]
  cases u.sshUser with
  | none => rfl
  | some user =>
    by_cases huser : user = ""
    · subst huser
      rfl
    · simp only [huser, if_false]
      rfl

theorem httpsUrl_toList (u : RemoteUri) :
    (u.httpsUrl "").toList =
      urlOf (if u.scheme = .http then "http".toList else "https".toList) none u := by
  unfold RemoteUri.httpsUrl urlOf whoOf
  by_cases hscheme : u.scheme = .http
  · simp only [hscheme, if_true, String.toList_append, netloc_toList, Option.elim_none,
      List.append_assoc]
    rfl
  · simp only [hscheme, if_false, if_true, String.toList_append, netloc_toList, Option.elim_none,
      List.append_assoc]
    rfl

theorem isDigit_spec (h : c.isDigit = true) :
    Url.isDelim c = false ∧ Url.isUnsafe c = false ∧ c ≠ '@' ∧ c ≠ '[' := by
  refine ⟨?_, ?_, ?_, ?_⟩
  · by_contra hno
    simp only [Url.isDelim, Bool.not_eq_false, Bool.or_eq_true, beq_iff_eq] at hno
    rcases hno with (rfl | rfl) | rfl <;> exact absurd h (by decide)
  · by_contra hno
    simp only [Url.isUnsafe, Bool.not_eq_false, Bool.or_eq_true, beq_iff_eq] at hno
    rcases hno with (rfl | rfl) | rfl <;> exact absurd h (by decide)
  · rintro rfl
    exact absurd h (by decide)
  · rintro rfl
    exact absurd h (by decide)

/-- The digits of a port, as a URL has them. -/
def portDigits (port : Option Nat) : List Char :=
  port.elim [] fun n => if n = 0 then [] else Nat.toDigits 10 n

theorem netlocOf_eq (host : List Char) (port : Option Nat) :
    ∃ cs, netlocOf host port = host ++ cs ∧ Url.IsPort cs (portDigits port) ∧
      (∀ c ∈ cs, c = ':' ∨ c.isDigit = true) := by
  unfold netlocOf portDigits
  cases port with
  | none => exact ⟨[], rfl, Or.inl ⟨rfl, rfl⟩, by simp⟩
  | some n =>
    by_cases hn : n = 0
    · refine ⟨[], by simp [hn], Or.inl ⟨rfl, by simp [hn]⟩, by simp⟩
    · refine ⟨':' :: Nat.toDigits 10 n, by simp [hn, Nat.toString_eq_repr, Nat.toList_repr],
        Or.inr ⟨by simp [hn], fun hin => ?_⟩, fun c hc => ?_⟩
      · simp only [Option.elim_some, if_neg hn] at hin
        exact (isDigit_spec (Nat.isDigit_of_mem_toDigits (by decide) (by decide) hin)).2.2.2 rfl
      · rcases List.mem_cons.mp hc with rfl | hc
        · exact Or.inl rfl
        · exact Or.inr (Nat.isDigit_of_mem_toDigits (by decide) (by decide) hc)

/-- The parts of a URL that was rendered. -/
def urlParts (scheme : List Char) (who : Option (List Char)) (u : RemoteUri) : Split where
  scheme
  netloc := whoOf who ++ netlocOf u.hostname.toList u.port
  path := '/' :: (u.path.toList ++ ".git".toList)

/-- A user that can stand in a URL. -/
def PlainUser (who : Option (List Char)) : Prop :=
  ∀ user, who = some user → ∀ c ∈ user,
    Url.isDelim c = false ∧ Url.isUnsafe c = false ∧ c ≠ ':'

theorem written_isScheme (h : Written scheme) : Url.isScheme scheme = true := by
  rcases h with rfl | rfl | rfl <;> decide

variable {who : Option (List Char)} {text : String}

theorem mem_netlocOf (h : c ∈ netlocOf host port) : c ∈ host ∨ c = ':' ∨ c.isDigit = true := by
  obtain ⟨cs, heq, -, hcs⟩ := netlocOf_eq host port
  rw [heq] at h
  exact (List.mem_append.mp h).imp_right (hcs c)

theorem netloc_chars (hu : Plain T u) (hwho : PlainUser who) :
    ∀ c ∈ (urlParts scheme who u).netloc, Url.isDelim c = false ∧ Url.isUnsafe c = false := by
  intro c hc
  rcases List.mem_append.mp hc with hc | hc
  · cases who with
    | none => cases hc
    | some user =>
      rcases List.mem_append.mp hc with hc | hc
      · exact ⟨(hwho user rfl c hc).1, (hwho user rfl c hc).2.1⟩
      · cases List.mem_singleton.mp hc
        decide
  · rcases mem_netlocOf hc with hc | rfl | hc
    · exact hu.host_chars c hc
    · decide
    · exact ⟨(isDigit_spec hc).1, (isDigit_spec hc).2.1⟩

theorem strip_urlOf (h : Written scheme) (who : Option (List Char)) (u : RemoteUri) :
    Text.strip (urlOf scheme who u) = urlOf scheme who u := by
  refine Text.stripBy_of_trimmed ⟨fun c hc => ?_, fun c hc => ?_⟩
  · rcases h with rfl | rfl | rfl <;>
    · cases hc
      decide
  · have hlast : (urlOf scheme who u).getLast? = some 't' := by
      rw [urlOf, show ".git".toList = ['.', 'g', 'i'] ++ ['t'] from rfl]
      simp only [← List.append_assoc, ← List.cons_append, List.getLast?_concat]
    rw [hlast] at hc
    cases hc
    decide

theorem scpOf_urlOf (scheme : List Char) (who : Option (List Char)) (u : RemoteUri) :
    scpOf T (urlOf scheme who u) = none := by
  refine if_pos (List.any_eq_true.mpr ⟨_, (List.mem_tails _ _).mpr ⟨scheme, rfl⟩, ?_⟩)
  exact List.isPrefixOf_iff_prefix.mpr ⟨_, rfl⟩

theorem urlsplit_urlOf (hu : Plain T u) (hwho : PlainUser who) (hscheme : Written scheme) :
    urlsplit T.toTables (urlOf scheme who u) =
      if Valid T.toTables (urlParts scheme who u).netloc then some (urlParts scheme who u)
      else none := by
  have hnetloc := @netloc_chars T u scheme who hu hwho
  refine Url.urlsplit_url (written_isScheme hscheme) hnetloc fun c hc => ?_
  rcases List.mem_append.mp hc with hc | hc
  · exact hu.path_chars c hc
  · have hall : (".git".toList.all fun c => c ≠ '#' && c ≠ '?' && !Url.isUnsafe c) = true := rfl
    simpa [and_assoc] using List.all_eq_true.mp hall c hc

/-- What the parser reads in a URL that was rendered. -/
theorem parse_urlOf (hu : Plain T u) (hwho : PlainUser who) (hscheme : Written scheme)
    (htext : text.toList = urlOf scheme who u) :
    parseRemoteUri T text = if Valid T.toTables (urlParts scheme who u).netloc then
      fromSplit T text (urlParts scheme who u) else .error (.raised "ValueError") := by
  unfold parseRemoteUri
  rw [htext, strip_urlOf hscheme]
  dsimp only
  rw [scpOf_urlOf]
  dsimp only
  rw [urlsplit_urlOf hu hwho hscheme]
  split_ifs <;> rfl

theorem rpartition_urlParts (hu : Plain T u) (scheme : List Char) (who : Option (List Char)) :
    Url.rpartition '@' (urlParts scheme who u).netloc =
      (who, netlocOf u.hostname.toList u.port) := by
  have hno : '@' ∉ netlocOf u.hostname.toList u.port := by
    intro hin
    rcases mem_netlocOf hin with hin | hin | hin
    · exact hu.host_at hin
    · exact absurd hin (by decide)
    · exact (isDigit_spec hin).2.2.1 rfl
  cases who with
  | none => exact Url.rpartition_of_not_mem hno
  | some user =>
    have heq : (urlParts scheme (some user) u).netloc =
        user ++ '@' :: netlocOf u.hostname.toList u.port := by
      simp [urlParts, whoOf]
    rw [heq, Url.rpartition_append hno]

theorem hostinfo_urlParts (hu : Plain T u) (scheme : List Char) (who : Option (List Char)) :
    (urlParts scheme who u).hostinfo = Url.hostPort (netlocOf u.hostname.toList u.port) := by
  rw [Split.hostinfo, rpartition_urlParts hu]

theorem isLower_hostPort (hu : Plain T u) :
    ∀ c ∈ (Url.hostPort (netlocOf u.hostname.toList u.port)).1, T.isLower c = true := by
  intro c hc
  rcases mem_netlocOf (Url.mem_hostPort_fst hc) with hc | rfl | hc
  · exact hu.host_lower c hc
  · exact T.isLower_colon
  · exact T.isLower_digit c hc

/-- The host that is read in a URL that was rendered. -/
theorem hostname_urlParts (hu : Plain T u) (scheme : List Char) (who : Option (List Char)) :
    ((urlParts scheme who u).hostname T.toTables).getD [] =
      (Url.hostPort (netlocOf u.hostname.toList u.port)).1 := by
  have hlower := isLower_hostPort hu
  rw [← hostinfo_urlParts hu scheme who] at hlower
  rw [Url.hostname_of_isLower hlower, hostinfo_urlParts hu]
  split_ifs with hnil
  · exact hnil.symm
  · rfl

theorem password_urlParts (hu : Plain T u) (hwho : PlainUser who) (scheme : List Char) :
    (urlParts scheme who u).password = none := by
  rw [Split.password, Split.userinfo, rpartition_urlParts hu]
  cases who with
  | none => rfl
  | some user => exact if_neg fun hin => (hwho user rfl _ hin).2.2 rfl

theorem username_urlParts (hu : Plain T u) (hwho : PlainUser who) (scheme : List Char) :
    (urlParts scheme who u).username = who := by
  rw [Split.username, Split.userinfo, rpartition_urlParts hu]
  cases who with
  | none => rfl
  | some user =>
    have hall : ∀ c ∈ user, decide (c ≠ ':') = true := fun c hc =>
      decide_eq_true (hwho user rfl c hc).2.2
    rw [Option.map_some, List.takeWhile_eq_self_iff.mpr hall]

/-- The host of a URL is read as it stands exactly without colons and opening brackets. -/
theorem hostPort_netlocOf (host : List Char) (port : Option Nat) :
    (Url.hostPort (netlocOf host port)).1 = host ↔ ':' ∉ host ∧ '[' ∉ host := by
  obtain ⟨cs, heq, hport, -⟩ := netlocOf_eq host port
  rw [heq, Url.hostPort_fst hport]

/-- The port is read as it was, but for zero. -/
theorem port_urlParts (hu : Plain T u) (scheme : List Char) (who : Option (List Char))
    (hcolon : ':' ∉ u.hostname.toList) (hopen : '[' ∉ u.hostname.toList) :
    (urlParts scheme who u).port = some (if u.port = some 0 then none else u.port) := by
  obtain ⟨cs, heq, hport, -⟩ := netlocOf_eq u.hostname.toList u.port
  have hdigits : (urlParts scheme who u).hostinfo.2 = portDigits u.port := by
    rw [hostinfo_urlParts hu, heq, Url.hostPort_snd hport hcolon hopen]
  cases hn : u.port with
  | none =>
    rw [hn] at hdigits
    exact if_pos hdigits
  | some n =>
    rw [hn] at hdigits
    by_cases hzero : n = 0
    · rw [hzero] at hdigits ⊢
      exact if_pos hdigits
    · rw [if_neg (by simp [hzero])]
      refine Url.port_of_digits ?_ (hu.port_le n hn)
      rw [hdigits, portDigits, Option.elim_some, if_neg hzero]

/-- A URL of a scheme: `http` is for this machine, and only `ssh` has a user. -/
structure Addressed (scheme : List Char) (who : Option (List Char)) (u : RemoteUri) : Prop where
  written : Written scheme
  loopback : scheme = "http".toList → u.hostname.toList ∈ LOOPBACK
  anonymous : scheme ≠ "ssh".toList → who = none
  user : PlainUser who

/-- What it takes for a remote to be given back by a URL. -/
def GivenBack (T : UriTables) (u : RemoteUri) (netloc : List Char) : Prop :=
  '/' ∈ u.path.toList ∧ u.port ≠ some 0 ∧ ':' ∉ u.hostname.toList ∧ '[' ∉ u.hostname.toList ∧
    Valid T.toTables netloc

theorem path_urlParts (hu : Plain T u) (scheme : List Char) (who : Option (List Char)) :
    withoutGit (stripSlashes (urlParts scheme who u).path) = u.path.toList :=
  path_of_url hu.path_head

theorem protocolOf_http (h : T.lower host ∈ LOOPBACK) :
    protocolOf T "http".toList host = some .http := by
  unfold protocolOf
  rw [if_neg (by decide), if_neg (by decide), if_pos ⟨rfl, List.contains_iff_mem.mpr h⟩]

/-- The checks pass for a URL that was rendered, if the host is read as it stands. -/
theorem passes_urlParts (hu : Plain T u) (hurl : Addressed scheme who u)
    (hslash : '/' ∈ u.path.toList)
    (hhost : ((urlParts scheme who u).hostname T.toTables).getD [] = u.hostname.toList) :
    Passes T (urlParts scheme who u) := by
  refine ⟨?_, ?_, password_urlParts hu hurl.user scheme, ?_⟩
  · rw [hhost, username_urlParts hu hurl.user]
    rcases hurl.written with rfl | rfl | rfl
    · exact ⟨.ssh, rfl, fun hno => absurd rfl hno⟩
    · exact ⟨.https, rfl, fun _ => by rw [hurl.anonymous (by decide)]; rfl⟩
    · have hlower : T.lower u.hostname.toList ∈ LOOPBACK := by
        rw [T.lower_of_isLower _ hu.host_lower]
        exact hurl.loopback rfl
      exact ⟨.http, protocolOf_http hlower, fun _ => by rw [hurl.anonymous (by decide)]; rfl⟩
  · rw [hhost]
    exact hu.host_ne
  · rw [path_urlParts hu]
    exact hslash

/-- The remote that is read in a URL that was rendered. -/
theorem parse_urlOf_ok (hu : Plain T u) (hurl : Addressed scheme who u)
    (htext : text.toList = urlOf scheme who u) (h : parseRemoteUri T text = .ok back) :
    Valid T.toTables (urlParts scheme who u).netloc ∧ '/' ∈ u.path.toList ∧
      ∃ protocol port, protocolOf T scheme
          (((urlParts scheme who u).hostname T.toTables).getD []) = some protocol ∧
        (urlParts scheme who u).port = some port ∧
        back = remoteOf T (urlParts scheme who u) protocol port := by
  rw [parse_urlOf hu hurl.user hurl.written htext] at h
  split_ifs at h with hvalid
  rcases fromSplit_cases T text (urlParts scheme who u) with
    ⟨-, message, heq⟩ | ⟨hpasses, protocol, hprotocol, heq⟩
  · rw [heq] at h
    cases h
  · have hslash := hpasses.2.2.2
    rw [path_urlParts hu] at hslash
    rw [heq] at h
    refine ⟨hvalid, hslash, protocol, ?_⟩
    cases hport : (urlParts scheme who u).port with
    | none =>
      rw [hport] at h
      cases h
    | some port =>
      rw [hport] at h
      exact ⟨port, hprotocol, rfl, (Except.ok.inj h).symm⟩

/-- The host of a URL that was rendered, in lower case, is the one of its netloc. -/
theorem hostname_remoteOf (hu : Plain T u) (scheme : List Char) (who : Option (List Char))
    (protocol : Protocol) (port : Option Nat) :
    (remoteOf T (urlParts scheme who u) protocol port).hostname =
      String.ofList (Url.hostPort (netlocOf u.hostname.toList u.port)).1 := by
  rw [remoteOf, hostname_urlParts hu, T.lower_of_isLower _ (isLower_hostPort hu)]

/-- Which URLs that were rendered give the remote back. -/
theorem parse_urlOf_iff (hu : Plain T u) (hurl : Addressed scheme who u)
    (htext : text.toList = urlOf scheme who u) :
    (∃ back, parseRemoteUri T text = .ok back ∧ SameRemote u back) ↔
      GivenBack T u (urlParts scheme who u).netloc := by
  constructor
  · rintro ⟨back, hback, hhost, -, hsame⟩
    obtain ⟨hvalid, hslash, protocol, port, -, hport, rfl⟩ := parse_urlOf_ok hu hurl htext hback
    rw [hostname_remoteOf hu] at hhost
    have hread := congrArg String.toList hhost
    rw [String.toList_ofList] at hread
    obtain ⟨hcolon, hopen⟩ := (hostPort_netlocOf _ _).mp hread
    refine ⟨hslash, fun hzero => ?_, hcolon, hopen, hvalid⟩
    rw [port_urlParts hu scheme who hcolon hopen, if_pos hzero] at hport
    cases hport
    rw [hzero] at hsame
    cases hsame
  · rintro ⟨hslash, hport, hcolon, hopen, hvalid⟩
    have hread := (hostPort_netlocOf u.hostname.toList u.port).mpr ⟨hcolon, hopen⟩
    have hhost : ((urlParts scheme who u).hostname T.toTables).getD [] = u.hostname.toList :=
      (hostname_urlParts hu scheme who).trans hread
    rw [parse_urlOf hu hurl.user hurl.written htext, if_pos hvalid]
    rcases fromSplit_cases T text (urlParts scheme who u) with
      ⟨hfails, -⟩ | ⟨-, protocol, -, heq⟩
    · exact absurd (passes_urlParts hu hurl hslash hhost) hfails
    · rw [heq, port_urlParts hu scheme who hcolon hopen, if_neg hport]
      refine ⟨_, rfl, ?_, ?_, rfl⟩
      · rw [hostname_remoteOf hu, hread, String.ofList_toList]
      · rw [remoteOf, path_urlParts hu, String.ofList_toList]

theorem noPassword_urlOf (hu : Plain T u) (hurl : Addressed scheme who u)
    (htext : text.toList = urlOf scheme who u) : NoPassword T text := by
  intro parts hparts
  rw [htext, strip_urlOf hurl.written, urlsplit_urlOf hu hurl.user hurl.written] at hparts
  split_ifs at hparts
  cases Option.some.inj hparts
  exact password_urlParts hu hurl.user scheme

theorem userOf_of_ne {name : String} (h : u.sshUser = some name) (hne : name ≠ "") :
    userOf u = name.toList := by
  rw [userOf, h]
  exact if_neg hne

theorem addressed_ssh (hu : Plain T u) : Addressed "ssh".toList (some (userOf u)) u where
  written := Or.inl rfl
  loopback h := absurd h (by decide)
  anonymous h := absurd rfl h
  user := by
    intro user huser c hc
    cases huser
    have hall : ("git".toList.all fun c => !Url.isDelim c && !Url.isUnsafe c && c ≠ ':') = true :=
      rfl
    have hgit : ∀ c ∈ "git".toList,
        Url.isDelim c = false ∧ Url.isUnsafe c = false ∧ c ≠ ':' := fun c hc => by
      simpa [and_assoc] using List.all_eq_true.mp hall c hc
    unfold userOf at hc
    split at hc
    · next name hname =>
      split_ifs at hc
      · exact hgit c hc
      · exact hu.user_chars name hname c hc
    · exact hgit c hc

theorem addressed_https (hu : Plain T u) :
    Addressed (if u.scheme = .http then "http".toList else "https".toList) none u := by
  by_cases hscheme : u.scheme = .http
  · rw [if_pos hscheme]
    exact ⟨Or.inr (Or.inr rfl), fun _ => hu.loopback hscheme, fun _ => rfl, by simp [PlainUser]⟩
  · rw [if_neg hscheme]
    exact ⟨Or.inr (Or.inl rfl), fun h => absurd h (by decide), fun _ => rfl,
      by simp [PlainUser]⟩

/-- The user that is read in the `ssh` URL. -/
theorem sshUser_back (hu : Plain T u) (h : parseRemoteUri T u.sshUrl = .ok back) :
    back.sshUser = some (String.ofList (userOf u)) := by
  obtain ⟨-, -, protocol, port, hprotocol, -, rfl⟩ :=
    parse_urlOf_ok hu (addressed_ssh hu) (sshUrl_toList u) h
  cases Option.some.inj hprotocol
  simp only [remoteOf, if_true, username_urlParts hu (addressed_ssh hu).user, Option.map_some]

/-- Which remotes are given back by their URLs. -/
theorem remoteFaithful_iff (hu : Plain T u) (hno : NoPassword T uri) :
    Faithful T uri u ↔ '/' ∈ u.path.toList ∧ u.port ≠ some 0 ∧ u.sshUser ≠ some "" ∧
      Restores T u.hostname.toList u.port (userOf u) := by
  have hssh := parse_urlOf_iff hu (addressed_ssh hu) (sshUrl_toList u)
  have hhttps := parse_urlOf_iff hu (addressed_https hu) (httpsUrl_toList u)
  have hnetloc : (urlParts "ssh".toList (some (userOf u)) u).netloc =
      userOf u ++ '@' :: netlocOf u.hostname.toList u.port := by
    simp [urlParts, whoOf]
  rw [hnetloc] at hssh
  constructor
  · rintro ⟨⟨back, hback, hsame, huser⟩, hweb, -⟩
    obtain ⟨hslash, hport, hcolon, hopen, hvalid⟩ := hssh.mp ⟨back, hback, hsame⟩
    refine ⟨hslash, hport, fun hempty => ?_, hcolon, hopen, (hhttps.mp hweb).2.2.2.2, hvalid⟩
    have hread := huser "" hempty
    rw [sshUser_back hu hback, userOf, hempty] at hread
    exact absurd hread (by decide)
  · rintro ⟨hslash, hport, huser, hcolon, hopen, hvalid, hwith⟩
    obtain ⟨back, hback, hsame⟩ := hssh.mpr ⟨hslash, hport, hcolon, hopen, hwith⟩
    refine ⟨⟨back, hback, hsame, fun name hname => ?_⟩,
      hhttps.mpr ⟨hslash, hport, hcolon, hopen, hvalid⟩, hno,
      noPassword_urlOf hu (addressed_ssh hu) (sshUrl_toList u),
      noPassword_urlOf hu (addressed_https hu) (httpsUrl_toList u)⟩
    have hne : name ≠ "" := fun heq => huser (heq ▸ hname)
    rw [sshUser_back hu hback, userOf_of_ne hname hne, String.ofList_toList]

/-! ## What the parser returns -/

theorem mem_withoutGit (h : c ∈ withoutGit path) : c ∈ path := by
  unfold withoutGit at h
  split_ifs at h
  · exact List.mem_of_mem_take h
  · exact h

theorem head_stripSlashes (path : List Char) : (stripSlashes path).head? ≠ some '/' := by
  intro hhead
  exact absurd ((Text.trimmed_stripBy (· == '/') path).1 '/' hhead) (by decide)

theorem head_withoutGit (h : path.head? ≠ some '/') : (withoutGit path).head? ≠ some '/' := by
  unfold withoutGit
  split_ifs
  · rw [List.head?_take]
    split_ifs
    · simp
    · exact h
  · exact h

/-- The signs that cannot stand in a host are not letters of ASCII. -/
theorem isDelim_or_isUnsafe (h : Url.isDelim c = true ∨ Url.isUnsafe c = true ∨ c = '@') :
    c.toNat < 128 ∧ c.isAlpha = false := by
  simp only [Url.isDelim, Url.isUnsafe, Bool.or_eq_true, beq_iff_eq] at h
  rcases h with ((rfl | rfl) | rfl) | ((rfl | rfl) | rfl) | rfl <;> decide

/-- A host without separators has none in lower case. -/
theorem lower_chars (h : ∀ c ∈ host, Url.isDelim c = false ∧ Url.isUnsafe c = false ∧ c ≠ '@') :
    (∀ c ∈ T.lower host, Url.isDelim c = false ∧ Url.isUnsafe c = false) ∧
      '@' ∉ T.lower host := by
  have hall : ∀ c ∈ T.lower host,
      ¬ (Url.isDelim c = true ∨ Url.isUnsafe c = true ∨ c = '@') := by
    intro c hc hbad
    obtain ⟨hascii, halpha⟩ := isDelim_or_isUnsafe hbad
    obtain ⟨hdelim, hclean, hat⟩ := h c (T.mem_of_mem_lower host c hc hascii halpha)
    rcases hbad with hbad | hbad | hbad
    · rw [hdelim] at hbad
      cases hbad
    · rw [hclean] at hbad
      cases hbad
    · exact hat hbad
  refine ⟨fun c hc => ?_, fun hin => hall '@' hin (Or.inr (Or.inr rfl))⟩
  have hnot := hall c hc
  push Not at hnot
  exact ⟨by simpa using hnot.1, by simpa using hnot.2.1⟩

theorem mem_rpartition_snd (h : c ∈ (Url.rpartition '@' netloc).2) : c ∈ netloc ∧ c ≠ '@' := by
  rcases Url.rpartition_cases '@' netloc with ⟨hno, heq⟩ | ⟨before, after, rfl, hno, heq⟩
  · rw [heq] at h
    exact ⟨h, fun hat => hno (hat ▸ h)⟩
  · rw [heq] at h
    exact ⟨List.mem_append_right _ (List.mem_cons_of_mem _ h), fun hat => hno (hat ▸ h)⟩

/-- The name of a host has no separators, if its netloc has none. -/
theorem hostname_chars
    (hnetloc : ∀ c ∈ parts.netloc, Url.isDelim c = false ∧ Url.isUnsafe c = false) :
    ∀ c ∈ (parts.hostname T.toTables).getD [],
      Url.isDelim c = false ∧ Url.isUnsafe c = false ∧ c ≠ '@' := by
  intro c hc
  by_contra hbad
  have hsign : Url.isDelim c = true ∨ Url.isUnsafe c = true ∨ c = '@' := by
    by_contra hno
    push Not at hno
    exact hbad ⟨by simpa using hno.1, by simpa using hno.2.1, hno.2.2⟩
  obtain ⟨hascii, halpha⟩ := isDelim_or_isUnsafe hsign
  cases hname : parts.hostname T.toTables with
  | none =>
    rw [hname] at hc
    cases hc
  | some name =>
    rw [hname] at hc
    obtain ⟨hin, hat⟩ := mem_rpartition_snd (Url.mem_of_mem_hostname hname hc hascii halpha)
    exact hbad ⟨(hnetloc c hin).1, (hnetloc c hin).2, hat⟩

theorem mem_username {name : List Char} (h : parts.username = some name) (hc : c ∈ name) :
    c ∈ parts.netloc ∧ c ≠ ':' := by
  rw [Split.username, Option.map_eq_some_iff] at h
  obtain ⟨info, hinfo, rfl⟩ := h
  refine ⟨?_, by simpa using List.mem_takeWhile_imp hc⟩
  rcases Url.rpartition_cases '@' parts.netloc with ⟨-, heq⟩ | ⟨before, after, hall, -, heq⟩
  · rw [Split.userinfo, heq] at hinfo
    cases hinfo
  · rw [Split.userinfo, heq] at hinfo
    cases hinfo
    exact hall ▸ List.mem_append_left _ ((List.takeWhile_sublist _).subset hc)

theorem mem_loopback (h : protocolOf T scheme host = some .http) : T.lower host ∈ LOOPBACK := by
  unfold protocolOf at h
  split_ifs at h with hhttps hssh hhttp
  · cases h
  · cases h
  · exact List.contains_iff_mem.mp hhttp.2

/-- The remote of a URL can be rendered. -/
theorem plain_remoteOf {protocol : Protocol} {url : List Char}
    (hsplit : urlsplit T.toTables url = some parts) (hpasses : Passes T parts)
    (hprotocol : protocolOf T parts.scheme ((parts.hostname T.toTables).getD []) = some protocol)
    (hport : parts.port = some port) : Plain T (remoteOf T parts protocol port) := by
  obtain ⟨-, hnetloc, hpath⟩ := Url.urlsplit_some hsplit
  have hlower := lower_chars (T := T) (hostname_chars (T := T) hnetloc)
  refine ⟨?_, ?_, ?_, ?_, ?_, ?_, ?_, ?_, ?_⟩ <;> simp only [remoteOf, String.toList_ofList]
  · exact T.lower_ne_nil _ hpasses.2.1
  · exact T.isLower_lower _
  · exact hlower.1
  · exact hlower.2
  · intro user huser c hc
    split_ifs at huser
    obtain ⟨name, hname, rfl⟩ := Option.map_eq_some_iff.mp huser
    rw [String.toList_ofList] at hc
    obtain ⟨hin, hcolon⟩ := mem_username hname hc
    exact ⟨(hnetloc c hin).1, (hnetloc c hin).2, hcolon⟩
  · exact fun c hc => hpath c (Text.mem_of_mem_stripBy (mem_withoutGit hc))
  · exact head_withoutGit (head_stripSlashes _)
  · exact fun n hn => Url.port_le (hn ▸ hport)
  · rintro rfl
    exact mem_loopback hprotocol

theorem isUserChar_spec (h : isUserChar T c = true) :
    Url.isDelim c = false ∧ Url.isUnsafe c = false ∧ c ≠ '@' ∧ c ≠ ':' := by
  have hascii : ∀ d : Char, d.toNat < 128 → d.isAlphanum = false → d ≠ '_' → d ≠ '.' →
      d ≠ '-' → c ≠ d := by
    rintro d hd halnum hlow hdot hdash rfl
    simp [isUserChar, T.isWord_ascii _ hd, halnum, hlow, hdot, hdash] at h
  have hne : c ≠ '/' ∧ c ≠ '?' ∧ c ≠ '#' ∧ c ≠ '\t' ∧ c ≠ '\r' ∧ c ≠ '\n' ∧ c ≠ '@' ∧ c ≠ ':' := by
    refine ⟨?_, ?_, ?_, ?_, ?_, ?_, ?_, ?_⟩ <;>
      exact hascii _ (by decide) (by decide) (by decide) (by decide) (by decide)
  simpa [Url.isDelim, Url.isUnsafe, not_or, and_assoc] using hne

theorem mem_shortest (h : c ∈ shortest path) : c ∈ path := by
  unfold shortest at h
  cases hfind : [".git/".toList, ".git".toList, "/".toList].find? fun ending =>
      ending.isSuffixOf path && ending.length < path.length with
  | none => rwa [hfind] at h
  | some ending =>
    rw [hfind] at h
    exact List.mem_of_mem_take h

/-- An `scp` address is a user, a host and a path. -/
structure ScpText (T : UriTables) (cs : List Char) (scp : ScpLike) (path : List Char) : Prop where
  text : cs = scp.user ++ '@' :: (scp.host ++ ':' :: path)
  user_ne : scp.user ≠ []
  user_chars : ∀ c ∈ scp.user, isUserChar T c = true
  host_ne : scp.host ≠ []
  host_chars : ∀ c ∈ scp.host, isUserChar T c = true
  path_chars : ∀ c ∈ path, isPathChar T c = true
  path_sub : ∀ c ∈ scp.path, c ∈ path

theorem scpMatch_some {cs : List Char} {scp : ScpLike} (h : scpMatch T cs = some scp) :
    ∃ path, ScpText T cs scp path := by
  unfold scpMatch at h
  dsimp only at h
  generalize hrest : cs.dropWhile (isUserChar T) = rest at h
  split at h
  · next rest =>
    generalize hpath : rest.dropWhile (isUserChar T) = path at h
    split at h
    · next path =>
      split_ifs at h with hgroups
      obtain ⟨huser, hhost, -, hall⟩ := hgroups
      cases h
      refine ⟨path, ?_, huser, fun c hc => List.mem_takeWhile_imp hc, hhost,
        fun c hc => List.mem_takeWhile_imp hc, fun c hc => List.all_eq_true.mp hall c hc,
        fun c hc => mem_shortest hc⟩
      dsimp only
      rw [← hpath, List.takeWhile_append_dropWhile, ← hrest, List.takeWhile_append_dropWhile]
    · cases h
  · cases h

theorem scpOf_some {cs : List Char} {scp : ScpLike} (h : scpOf T cs = some scp) :
    ∃ path, ScpText T cs scp path := by
  unfold scpOf at h
  split_ifs at h
  exact scpMatch_some h

theorem isPathChar_spec (h : isPathChar T c = true) :
    c ≠ '#' ∧ c ≠ '?' ∧ Url.isUnsafe c = false := by
  rw [isPathChar, Bool.or_eq_true, beq_iff_eq] at h
  rcases h with h | rfl
  · obtain ⟨hdelim, hclean, -, -⟩ := isUserChar_spec h
    simp only [Url.isDelim, Bool.or_eq_false_iff, beq_eq_false_iff_ne] at hdelim
    exact ⟨hdelim.2, hdelim.1.2, hclean⟩
  · decide

/-- The remote of an `scp` address can be rendered. -/
theorem plain_remoteOfScp {cs path : List Char} {scp : ScpLike} (h : ScpText T cs scp path) :
    Plain T (remoteOfScp T scp) := by
  have hchars : ∀ c ∈ scp.host, Url.isDelim c = false ∧ Url.isUnsafe c = false ∧ c ≠ '@' :=
    fun c hc => (isUserChar_spec (h.host_chars c hc)).imp_right (And.imp_right And.left)
  have hlower := lower_chars (T := T) hchars
  refine ⟨?_, ?_, ?_, ?_, ?_, ?_, ?_, ?_, ?_⟩ <;>
    simp only [remoteOfScp, String.toList_ofList]
  · exact T.lower_ne_nil _ h.host_ne
  · exact T.isLower_lower _
  · exact hlower.1
  · exact hlower.2
  · intro user huser c hc
    cases huser
    rw [String.toList_ofList] at hc
    obtain ⟨hdelim, hclean, -, hcolon⟩ := isUserChar_spec (h.user_chars c hc)
    exact ⟨hdelim, hclean, hcolon⟩
  · exact fun c hc => isPathChar_spec (h.path_chars c (h.path_sub c (Text.mem_of_mem_stripBy hc)))
  · exact head_stripSlashes _
  · rintro n ⟨⟩
  · rintro ⟨⟩

theorem isControl_of_isUserChar (h : isUserChar T c = true) : Url.isControl c = false := by
  by_contra hno
  have hsmall : c.toNat ≤ 32 := by simpa [Url.isControl] using hno
  have hall : ∀ n < 33, ((Char.ofNat n).isAlphanum || Char.ofNat n == '_') = false ∧
      Char.ofNat n ≠ '.' ∧ Char.ofNat n ≠ '-' := by decide
  have hchar := hall c.toNat (by omega)
  rw [Char.ofNat_toNat] at hchar
  rw [isUserChar, T.isWord_ascii c (by omega), hchar.1] at h
  simp [hchar.2.1, hchar.2.2] at h

/-- Python sees no netloc in an `scp` address. -/
theorem noPassword_scp {path : List Char} {scp : ScpLike}
    (h : ScpText T (Text.strip uri.toList) scp path) : NoPassword T uri := by
  intro parts hparts
  generalize Text.strip uri.toList = cs at h hparts
  obtain ⟨first, rest, hcons⟩ := List.exists_cons_of_ne_nil h.user_ne
  have hhead : cs = first :: (rest ++ '@' :: (scp.host ++ ':' :: path)) := by
    rw [h.text, hcons, List.cons_append]
  have hfirst := h.user_chars first (hcons ▸ List.mem_cons_self)
  have hdrop : cs.dropWhile Url.isControl = cs := by
    rw [hhead, List.dropWhile_cons, isControl_of_isUserChar hfirst, if_neg (by simp)]
  have hfilter : cs.filter (!Url.isUnsafe ·) = cs := by
    rw [List.filter_eq_self]
    intro c hc
    have hsafe : Url.isUnsafe c = false := by
      rw [h.text] at hc
      simp only [List.mem_append, List.mem_cons] at hc
      rcases hc with hc | rfl | hc | rfl | hc
      · exact (isUserChar_spec (h.user_chars c hc)).2.1
      · decide
      · exact (isUserChar_spec (h.host_chars c hc)).2.1
      · decide
      · exact (isPathChar_spec (h.path_chars c hc)).2.2
    rw [hsafe]
    rfl
  have hname : '@' ∈ cs.takeWhile (· ≠ ':') := by
    have hno : ∀ c ∈ scp.user, decide (c ≠ ':') = true := fun c hc =>
      decide_eq_true (isUserChar_spec (h.user_chars c hc)).2.2.2
    rw [h.text, List.takeWhile_append_of_pos hno, List.takeWhile_cons, if_pos (by decide)]
    exact List.mem_append_right _ List.mem_cons_self
  have hslash : first ≠ '/' := by
    rintro rfl
    exact absurd (isUserChar_spec hfirst).1 (by decide)
  have hnetloc : (Url.takeNetloc cs).1 = [] := by
    rw [hhead, Url.takeNetloc_of_ne hslash]
  unfold urlsplit at hparts
  rw [hdrop, hfilter, Url.takeScheme_of_mem hname (by decide)] at hparts
  dsimp only at hparts
  rw [hnetloc] at hparts
  split_ifs at hparts
  cases hparts
  rfl

/-- The user of the `ssh` URL of a URL. -/
theorem userOf_remoteOf {protocol : Protocol}
    (hprotocol : protocolOf T parts.scheme ((parts.hostname T.toTables).getD []) = some protocol)
    (port : Option Nat) :
    ((remoteOf T parts protocol port).sshUser ≠ some "" ↔
      (parts.scheme = "ssh".toList → parts.username ≠ some [])) ∧
    ((remoteOf T parts protocol port).sshUser ≠ some "" →
      userOf (remoteOf T parts protocol port) = if parts.scheme = "ssh".toList then
        parts.username.getD "git".toList else "git".toList) := by
  have hssh : protocol = .ssh ↔ parts.scheme = "ssh".toList := by
    unfold protocolOf at hprotocol
    split_ifs at hprotocol with hhttps hssh hhttp
    · cases hprotocol
      exact iff_of_false (by decide) (by rw [hhttps]; decide)
    · cases hprotocol
      exact iff_of_true rfl hssh
    · cases hprotocol
      exact iff_of_false (by decide) hssh
  unfold userOf remoteOf
  dsimp only
  by_cases hscheme : parts.scheme = "ssh".toList
  · rw [if_pos (hssh.mpr hscheme), if_pos hscheme]
    cases parts.username with
    | none => simp
    | some name =>
      have hempty : String.ofList name = "" ↔ name = [] := by
        rw [← String.toList_inj, String.toList_ofList]
        rfl
      simp only [Option.map_some, ne_eq, Option.some.injEq, hempty, hscheme, true_imp_iff,
        String.toList_ofList, Option.getD_some, true_and]
      exact fun hne => if_neg hne
  · rw [if_neg fun h => hscheme (hssh.mp h), if_neg hscheme]
    exact ⟨iff_of_true (by simp) fun h => absurd h hscheme, fun _ => rfl⟩

/-- The parser returns a remote that its URLs give back, or refuses the text in its own way,
    exactly for an `scp` address with two names in its path, and for a URL that Python takes
    whose host has no brackets, and whose port and user, if it has them, are not empty. -/
theorem lawful_iff (T : UriTables) (uri : String) : Lawful T uri ↔ PlainAddress T uri := by
  unfold Lawful PlainAddress parseRemoteUri
  dsimp only
  cases hscp : scpOf T (Text.strip uri.toList) with
  | some scp =>
    obtain ⟨path, htext⟩ := scpOf_some hscp
    have huser : String.ofList scp.user ≠ "" := fun heq =>
      htext.user_ne (by simpa using congrArg String.toList heq)
    have hsame : userOf (remoteOfScp T scp) = scp.user := by
      rw [userOf_of_ne rfl huser, String.toList_ofList]
    dsimp only
    rw [remoteFaithful_iff (plain_remoteOfScp htext) (noPassword_scp htext), hsame]
    simp [remoteOfScp, huser]
  | none =>
    dsimp only
    cases hsplit : urlsplit T.toTables (Text.strip uri.toList) with
    | none => simp
    | some parts =>
      dsimp only
      rcases fromSplit_cases T uri parts with
        ⟨hfails, message, heq⟩ | ⟨hpasses, protocol, hprotocol, heq⟩
      · rw [heq]
        exact iff_of_true trivial ⟨parts, rfl, fun h => absurd h hfails⟩
      · rw [heq]
        cases hport : parts.port with
        | none =>
          refine iff_of_false id ?_
          rintro ⟨parts', hparts', hplain⟩
          cases hparts'
          obtain ⟨port, hsome, -⟩ := hplain hpasses
          rw [hport] at hsome
          cases hsome
        | some port =>
          have hno : NoPassword T uri := by
            intro parts' hparts'
            rw [hsplit] at hparts'
            cases hparts'
            exact hpasses.2.2.1
          obtain ⟨huser, hsame⟩ := userOf_remoteOf hprotocol port
          dsimp only
          rw [remoteFaithful_iff (plain_remoteOf hsplit hpasses hprotocol hport) hno]
          have hhost : (remoteOf T parts protocol port).hostname.toList =
              T.lower ((parts.hostname T.toTables).getD []) := by
            rw [remoteOf, String.toList_ofList]
          have hpath : (remoteOf T parts protocol port).path.toList =
              withoutGit (stripSlashes parts.path) := by
            rw [remoteOf, String.toList_ofList]
          rw [hhost, hpath]
          constructor
          · rintro ⟨-, hzero, hname, hrestores⟩
            rw [hsame hname] at hrestores
            exact ⟨parts, rfl, fun _ => ⟨port, hport, hzero, huser.mp hname, hrestores⟩⟩
          · rintro ⟨parts', hparts', hplain⟩
            cases hparts'
            obtain ⟨port', hport', hzero, hname, hrestores⟩ := hplain hpasses
            rw [hport] at hport'
            cases hport'
            refine ⟨hpasses.2.2.2, hzero, huser.mpr hname, ?_⟩
            rw [hsame (huser.mpr hname)]
            exact hrestores

theorem isWord_of_ascii (c : Char) (_ : c.toNat < 128) :
    (c.isAlphanum || c == '_') = (c.isAlphanum || c == '_') := rfl

/-- As far as ASCII goes. -/
def UriTables.ascii : UriTables where
  toTables := Tables.ascii
  isWord c := c.isAlphanum || c == '_'
  repr text := "'" ++ text ++ "'"
  isWord_ascii := isWord_of_ascii

/-- The port is read by the line that builds the remote, where nothing catches its error. -/
theorem badPort_raises : ¬ Lawful UriTables.ascii "https://h:abc/a/b" := by
  have hraises : parseRemoteUri UriTables.ascii "https://h:abc/a/b" =
      .error (.raised "ValueError") := by rfl
  rw [Lawful, hraises]
  exact id

end Git

end Slas
