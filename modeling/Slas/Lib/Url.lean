/-
  Slas.Lib.Url

  `urllib.parse.urlsplit` over lists of characters, with the host, the port, the user name and
  the password of what it returns.  A URL that is put together from its parts splits into
  them again: `urlsplit_url`.
-/

import Slas.Lib.Text

namespace Url

open Text (partition)

/-- What Python takes from the Unicode database, and its two checks of unusual netlocs. -/
structure Tables where
  /-- `str.lower` -/
  lower : List Char → List Char
  /-- The character stays as it is in lower case. -/
  isLower : Char → Bool
  /-- What stands between brackets is an address (`_check_bracketed_host`). -/
  bracketsOk : List Char → Bool
  /-- The compatible form of a netloc has no separator that the netloc has not. -/
  compatible : List Char → Bool
  isLower_lower : ∀ cs, ∀ c ∈ lower cs, isLower c = true
  lower_of_isLower : ∀ cs, (∀ c ∈ cs, isLower c = true) → lower cs = cs
  lower_ne_nil : ∀ cs, cs ≠ [] → lower cs ≠ []
  isLower_digit : ∀ c : Char, c.isDigit = true → isLower c = true
  isLower_colon : isLower ':' = true
  /-- No sign comes from another character. -/
  mem_of_mem_lower : ∀ cs c, c ∈ lower cs → c.toNat < 128 → c.isAlpha = false → c ∈ cs

/-- Control characters and blanks. -/
def isControl (c : Char) : Bool := c.toNat ≤ 0x20

/-- `_UNSAFE_URL_BYTES_TO_REMOVE` -/
def isUnsafe (c : Char) : Bool := c == '\t' || c == '\r' || c == '\n'

/-- `scheme_chars` -/
def isSchemeChar (c : Char) : Bool :=
  (c.isAlphanum && c.toNat < 128) || c == '+' || c == '-' || c == '.'

/-- What ends a netloc. -/
def isDelim (c : Char) : Bool := c == '/' || c == '?' || c == '#'

/-- `SplitResult`, but for its query and its fragment. -/
structure Split where
  scheme : List Char
  netloc : List Char
  path : List Char
  deriving DecidableEq

/-- The scheme, and what follows its colon. -/
def takeScheme (url : List Char) : List Char × List Char :=
  let name := url.takeWhile (· ≠ ':')
  match url.dropWhile (· ≠ ':') with
  | [] => ([], url)
  | _ :: rest =>
    if (name.head?.any fun c => c.isAlpha && c.toNat < 128) ∧ name.all isSchemeChar then
      (name.map Char.toLower, rest)
    else ([], url)

/-- `_splitnetloc` -/
def takeNetloc : List Char → List Char × List Char
  | '/' :: '/' :: rest => (rest.takeWhile (!isDelim ·), rest.dropWhile (!isDelim ·))
  | url => ([], url)

/-- `str.rpartition` at one character, without the separator. -/
def rpartition (sep : Char) (cs : List Char) : Option (List Char) × List Char :=
  if sep ∈ cs then (some (cs.rdropWhile (· ≠ sep)).dropLast, cs.rtakeWhile (· ≠ sep))
  else (none, cs)

variable (T : Tables)

/-- The checks of a netloc: brackets come in pairs around an address, and no character
    stands for a separator. -/
def Valid (netloc : List Char) : Prop :=
  ('[' ∈ netloc ↔ ']' ∈ netloc) ∧ ('[' ∈ netloc → T.bracketsOk netloc = true) ∧
    ((netloc.all fun c => c.toNat < 128) = true ∨ T.compatible netloc = true)

instance (netloc : List Char) : Decidable (Valid T netloc) :=
  inferInstanceAs (Decidable (_ ∧ _ ∧ _))

/-- `urlsplit`; without a value it raises a `ValueError`. -/
def urlsplit (url : List Char) : Option Split :=
  let (scheme, rest) := takeScheme ((url.dropWhile isControl).filter (!isUnsafe ·))
  let (netloc, rest) := takeNetloc rest
  if Valid T netloc then
    some ⟨scheme, netloc, (rest.takeWhile (· ≠ '#')).takeWhile (· ≠ '?')⟩
  else none

/-- The host and the port of a netloc after its user. -/
def hostPort (info : List Char) : List Char × List Char :=
  if '[' ∈ info then
    let (host, rest) := partition ']' (partition '[' info).2
    (host, (partition ':' rest).2)
  else partition ':' info

/-- The limit of `int`. -/
def MAX_STR_DIGITS : Nat := 4300

namespace Split

variable (parts : Split)

def userinfo : Option (List Char) := (rpartition '@' parts.netloc).1

def hostinfo : List Char × List Char := hostPort (rpartition '@' parts.netloc).2

/-- `hostname`: what follows a percent sign is as it was. -/
def hostname : Option (List Char) :=
  let host := parts.hostinfo.1
  if host = [] then none
  else some (T.lower (host.takeWhile (· ≠ '%')) ++ host.dropWhile (· ≠ '%'))

/-- `port`; without a value it raises a `ValueError`. -/
def port : Option (Option Nat) :=
  let digits := parts.hostinfo.2
  if digits = [] then some none
  else if digits.all Char.isDigit ∧ digits.length ≤ MAX_STR_DIGITS ∧
      Nat.ofDigitChars 10 digits 0 ≤ 65535 then
    some (some (Nat.ofDigitChars 10 digits 0))
  else none

def username : Option (List Char) := parts.userinfo.map (·.takeWhile (· ≠ ':'))

def password : Option (List Char) :=
  parts.userinfo.bind fun info => if ':' ∈ info then some (partition ':' info).2 else none

end Split

variable {T} {parts : Split} {url scheme netloc rest user host digits cs : List Char} {sep : Char}

/-! ## Splitting what was put together -/

theorem rpartition_append (h : sep ∉ cs) (before : List Char) :
    rpartition sep (before ++ sep :: cs) = (some before, cs) := by
  have hmem : sep ∈ before ++ sep :: cs := by simp
  have htake : (before ++ sep :: cs).rtakeWhile (· ≠ sep) = cs := by
    rw [List.rtakeWhile, List.reverse_append, List.reverse_cons, List.append_assoc,
      List.takeWhile_append_of_pos fun c hc => ?_]
    · simp
    · exact decide_eq_true fun heq => h (heq ▸ List.mem_reverse.mp hc)
  have hdrop : (before ++ sep :: cs).rdropWhile (· ≠ sep) = before ++ [sep] := by
    have hsplit : (before ++ sep :: cs).rdropWhile (· ≠ sep) ++
        (before ++ sep :: cs).rtakeWhile (· ≠ sep) = (before ++ [sep]) ++ cs := by
      rw [List.rdropWhile_append_rtakeWhile, List.append_assoc, List.singleton_append]
    rw [htake] at hsplit
    exact List.append_cancel_right hsplit
  rw [rpartition, if_pos hmem, htake, hdrop, List.dropLast_concat]

theorem rpartition_of_not_mem (h : sep ∉ cs) : rpartition sep cs = (none, cs) := if_neg h

/-- A text has no separator, or a last one. -/
theorem rpartition_cases (sep : Char) (cs : List Char) :
    (sep ∉ cs ∧ rpartition sep cs = (none, cs)) ∨
      ∃ before after, cs = before ++ sep :: after ∧ sep ∉ after ∧
        rpartition sep cs = (some before, after) := by
  by_cases h : sep ∈ cs
  · obtain ⟨after, before, heq, hlast⟩ := List.eq_append_cons_of_mem (List.mem_reverse.mpr h)
    have hcs : cs = before.reverse ++ sep :: after.reverse := by
      have hrev := congrArg List.reverse heq
      simpa using hrev
    have hafter : sep ∉ after.reverse := fun hin => hlast (List.mem_reverse.mp hin)
    exact Or.inr ⟨before.reverse, after.reverse, hcs, hafter, hcs ▸ rpartition_append hafter _⟩
  · exact Or.inl ⟨h, rpartition_of_not_mem h⟩

/-- A scheme as it is written in a URL. -/
def isScheme (scheme : List Char) : Bool :=
  (scheme.head?.any fun c => c.isAlpha && c.toNat < 128) && scheme.all isSchemeChar &&
    scheme.map Char.toLower == scheme

theorem isSchemeChar_spec {c : Char} (h : isSchemeChar c = true) :
    isUnsafe c = false ∧ c ≠ ':' := by
  constructor
  · by_contra hno
    simp only [isUnsafe, Bool.not_eq_false, Bool.or_eq_true, beq_iff_eq] at hno
    rcases hno with (rfl | rfl) | rfl <;> exact absurd h (by decide)
  · rintro rfl
    exact absurd h (by decide)

theorem isControl_of_isAlpha {c : Char} (h : c.isAlpha = true) : isControl c = false := by
  by_contra hno
  have hsmall : c.toNat ≤ 0x20 := by simpa [isControl] using hno
  have hall : ∀ n < 33, (Char.ofNat n).isAlpha = false := by decide
  rw [← Char.ofNat_toNat c, hall c.toNat (by omega)] at h
  cases h

theorem takeScheme_append (hscheme : isScheme scheme = true) :
    takeScheme (scheme ++ ':' :: rest) = (scheme, rest) := by
  simp only [isScheme, Bool.and_eq_true, beq_iff_eq] at hscheme
  obtain ⟨⟨hfirst, hall⟩, hlower⟩ := hscheme
  have hno : ∀ c ∈ scheme, decide (c ≠ ':') = true := fun c hc =>
    decide_eq_true (isSchemeChar_spec (List.all_eq_true.mp hall c hc)).2
  have htake : (scheme ++ ':' :: rest).takeWhile (· ≠ ':') = scheme := by
    rw [List.takeWhile_append_of_pos hno, List.takeWhile_cons, if_neg (by simp), List.append_nil]
  have hdrop : (scheme ++ ':' :: rest).dropWhile (· ≠ ':') = ':' :: rest := by
    rw [List.dropWhile_append_of_pos hno, List.dropWhile_cons, if_neg (by simp)]
  simp only [takeScheme, htake, hdrop, hfirst, hall, hlower, and_self, if_true]

/-- A name with another character is no scheme. -/
theorem takeScheme_of_mem {c : Char} (h : c ∈ cs.takeWhile (· ≠ ':'))
    (hc : isSchemeChar c = false) : takeScheme cs = ([], cs) := by
  have hall : ¬ (cs.takeWhile (· ≠ ':')).all isSchemeChar = true := fun hall => by
    have hchar := List.all_eq_true.mp hall c h
    rw [hc] at hchar
    cases hchar
  unfold takeScheme
  dsimp only
  split
  · rfl
  · exact if_neg fun hboth => hall hboth.2

theorem takeNetloc_of_ne {c : Char} (h : c ≠ '/') : takeNetloc (c :: cs) = ([], c :: cs) := by
  unfold takeNetloc
  split
  · next heq =>
    cases heq
    exact absurd rfl h
  · rfl

theorem takeNetloc_append (hnetloc : ∀ c ∈ netloc, isDelim c = false) :
    takeNetloc ('/' :: '/' :: (netloc ++ '/' :: rest)) = (netloc, '/' :: rest) := by
  have hall : ∀ c ∈ netloc, (!isDelim c) = true := fun c hc => by rw [hnetloc c hc]; rfl
  rw [takeNetloc, List.takeWhile_append_of_pos hall, List.dropWhile_append_of_pos hall,
    List.takeWhile_cons, if_neg (by decide), List.dropWhile_cons, if_neg (by decide),
    List.append_nil]

/-- A URL of a scheme, a netloc and a path splits into them, if the netloc passes. -/
theorem urlsplit_url (hscheme : isScheme scheme = true)
    (hnetloc : ∀ c ∈ netloc, isDelim c = false ∧ isUnsafe c = false)
    (hrest : ∀ c ∈ rest, c ≠ '#' ∧ c ≠ '?' ∧ isUnsafe c = false) :
    urlsplit T (scheme ++ ':' :: '/' :: '/' :: (netloc ++ '/' :: rest)) =
      if Valid T netloc then some ⟨scheme, netloc, '/' :: rest⟩ else none := by
  have hchars := hscheme
  simp only [isScheme, Bool.and_eq_true, beq_iff_eq] at hchars
  obtain ⟨⟨hfirst, hall⟩, -⟩ := hchars
  have hstart : (scheme ++ ':' :: '/' :: '/' :: (netloc ++ '/' :: rest)).dropWhile isControl =
      scheme ++ ':' :: '/' :: '/' :: (netloc ++ '/' :: rest) := by
    cases scheme with
    | nil => cases hfirst
    | cons c cs =>
      simp only [List.head?_cons, Option.any_some, Bool.and_eq_true] at hfirst
      rw [List.cons_append, List.dropWhile_cons, isControl_of_isAlpha hfirst.1, if_neg (by simp)]
  have hsafe : (scheme ++ ':' :: '/' :: '/' :: (netloc ++ '/' :: rest)).filter (!isUnsafe ·) =
      scheme ++ ':' :: '/' :: '/' :: (netloc ++ '/' :: rest) := by
    rw [List.filter_eq_self]
    intro c hc
    simp only [List.mem_append, List.mem_cons] at hc
    have hnot : isUnsafe c = false := by
      rcases hc with hc | rfl | rfl | rfl | hc | rfl | hc
      · exact (isSchemeChar_spec (List.all_eq_true.mp hall c hc)).1
      · decide
      · decide
      · decide
      · exact (hnetloc c hc).2
      · decide
      · exact (hrest c hc).2.2
    rw [hnot]
    rfl
  have hhash : ('/' :: rest).takeWhile (· ≠ '#') = '/' :: rest := by
    rw [List.takeWhile_eq_self_iff]
    intro c hc
    rcases List.mem_cons.mp hc with rfl | hc
    · decide
    · exact decide_eq_true (hrest c hc).1
  have hquery : ('/' :: rest).takeWhile (· ≠ '?') = '/' :: rest := by
    rw [List.takeWhile_eq_self_iff]
    intro c hc
    rcases List.mem_cons.mp hc with rfl | hc
    · decide
    · exact decide_eq_true (hrest c hc).2.1
  simp only [urlsplit, hstart, hsafe, takeScheme_append hscheme,
    takeNetloc_append fun c hc => (hnetloc c hc).1, hhash, hquery]

theorem mem_takeScheme {c : Char} (h : c ∈ (takeScheme cs).2) : c ∈ cs := by
  unfold takeScheme at h
  dsimp only at h
  split at h
  · exact h
  · next mark rest hdrop =>
    split_ifs at h
    · have hin : c ∈ cs.dropWhile (· ≠ ':') := hdrop ▸ List.mem_cons_of_mem _ h
      exact (List.dropWhile_sublist _).subset hin
    · exact h

theorem mem_takeNetloc {c : Char} :
    (c ∈ (takeNetloc cs).1 → c ∈ cs ∧ isDelim c = false) ∧ (c ∈ (takeNetloc cs).2 → c ∈ cs) := by
  unfold takeNetloc
  split
  · next rest =>
    refine ⟨fun h => ⟨?_, by simpa using List.mem_takeWhile_imp h⟩, fun h => ?_⟩
    · exact List.mem_cons_of_mem _ (List.mem_cons_of_mem _ ((List.takeWhile_sublist _).subset h))
    · exact List.mem_cons_of_mem _ (List.mem_cons_of_mem _ ((List.dropWhile_sublist _).subset h))
  · exact ⟨fun h => absurd h List.not_mem_nil, fun h => h⟩

/-- What `urlsplit` returns has no separators in its parts. -/
theorem urlsplit_some (h : urlsplit T url = some parts) :
    Valid T parts.netloc ∧ (∀ c ∈ parts.netloc, isDelim c = false ∧ isUnsafe c = false) ∧
      ∀ c ∈ parts.path, c ≠ '#' ∧ c ≠ '?' ∧ isUnsafe c = false := by
  unfold urlsplit at h
  dsimp only at h
  split_ifs at h with hvalid
  cases Option.some.inj h
  have hsafe : ∀ {c}, c ∈ (takeScheme ((url.dropWhile isControl).filter (!isUnsafe ·))).2 →
      isUnsafe c = false := by
    intro c hc
    simpa using (List.mem_filter.mp (mem_takeScheme hc)).2
  refine ⟨hvalid, fun c hc => ?_, fun c hc => ?_⟩
  · obtain ⟨hin, hdelim⟩ := mem_takeNetloc.1 hc
    exact ⟨hdelim, hsafe hin⟩
  · have hhash := (List.takeWhile_sublist _).subset hc
    refine ⟨by simpa using List.mem_takeWhile_imp hhash, by simpa using List.mem_takeWhile_imp hc,
      hsafe (mem_takeNetloc.2 ((List.takeWhile_sublist _).subset hhash))⟩

/-! ## Hosts and ports -/

theorem count_partition (h : sep ∈ cs) : (partition sep cs).2.count sep + 1 = cs.count sep := by
  obtain ⟨before, after, rfl, hbefore⟩ := List.eq_append_cons_of_mem h
  rw [Text.partition_append hbefore, List.count_append, List.count_cons_self,
    List.count_eq_zero_of_not_mem hbefore, Nat.zero_add]

theorem partition_of_not_mem (h : sep ∉ cs) : partition sep cs = (cs, []) := by
  have hall : ∀ c ∈ cs, decide (c ≠ sep) = true := fun c hc =>
    decide_eq_true fun heq => h (heq ▸ hc)
  rw [partition, List.takeWhile_eq_self_iff.mpr hall, List.dropWhile_eq_nil_iff.mpr hall]
  rfl

/-- What stands after a host: nothing, or a colon and a port. -/
def IsPort (cs digits : List Char) : Prop :=
  (cs = [] ∧ digits = []) ∨ (cs = ':' :: digits ∧ '[' ∉ digits)

/-- A host is read as it stands exactly without colons and opening brackets. -/
theorem hostPort_fst (h : IsPort cs digits) :
    (hostPort (host ++ cs)).1 = host ↔ ':' ∉ host ∧ '[' ∉ host := by
  have hport : '[' ∉ cs := by
    rcases h with ⟨rfl, -⟩ | ⟨rfl, hdigits⟩
    · exact List.not_mem_nil
    · simp [hdigits]
  constructor
  · intro heq
    have hopen : '[' ∉ host := by
      intro hin
      have hmem : '[' ∈ host ++ cs := List.mem_append_left _ hin
      have hcount := count_partition hmem
      rw [List.count_append, List.count_eq_zero_of_not_mem hport, Nat.add_zero] at hcount
      have hsub : (hostPort (host ++ cs)).1.Sublist (partition '[' (host ++ cs)).2 := by
        rw [hostPort, if_pos hmem]
        exact List.takeWhile_sublist _
      have hle := hsub.count_le '['
      rw [heq] at hle
      omega
    refine ⟨fun hcolon => ?_, hopen⟩
    rw [hostPort, if_neg (by simp [hopen, hport])] at heq
    rw [← heq] at hcolon
    exact (Text.mem_partition_fst hcolon).2 rfl
  · rintro ⟨hcolon, hopen⟩
    rw [hostPort, if_neg (by simp [hopen, hport])]
    rcases h with ⟨rfl, -⟩ | ⟨rfl, -⟩
    · rw [List.append_nil, partition_of_not_mem hcolon]
    · rw [Text.partition_append hcolon]

theorem hostPort_snd (h : IsPort cs digits) (hcolon : ':' ∉ host) (hopen : '[' ∉ host) :
    (hostPort (host ++ cs)).2 = digits := by
  have hport : '[' ∉ cs := by
    rcases h with ⟨rfl, -⟩ | ⟨rfl, hdigits⟩
    · exact List.not_mem_nil
    · simp [hdigits]
  rw [hostPort, if_neg (by simp [hopen, hport])]
  rcases h with ⟨rfl, rfl⟩ | ⟨rfl, -⟩
  · rw [List.append_nil, partition_of_not_mem hcolon]
  · rw [Text.partition_append hcolon]

theorem mem_hostPort_fst {c : Char} (h : c ∈ (hostPort cs).1) : c ∈ cs := by
  unfold hostPort at h
  split_ifs at h
  · exact Text.mem_partition_snd (Text.mem_partition_fst h).1
  · exact (Text.mem_partition_fst h).1

/-- A host in lower case is the name. -/
theorem hostname_of_isLower (h : ∀ c ∈ parts.hostinfo.1, T.isLower c = true) :
    parts.hostname T = if parts.hostinfo.1 = [] then none else some parts.hostinfo.1 := by
  have hlower := T.lower_of_isLower (parts.hostinfo.1.takeWhile (· ≠ '%')) fun c hc =>
    h c ((List.takeWhile_sublist _).subset hc)
  unfold Split.hostname
  dsimp only
  rw [hlower, List.takeWhile_append_dropWhile]

/-- No sign of a name is new. -/
theorem mem_of_mem_hostname {name : List Char} {c : Char} (h : parts.hostname T = some name)
    (hc : c ∈ name) (hascii : c.toNat < 128) (halpha : c.isAlpha = false) :
    c ∈ (rpartition '@' parts.netloc).2 := by
  unfold Split.hostname at h
  dsimp only at h
  split_ifs at h
  cases Option.some.inj h
  refine mem_hostPort_fst ?_
  rcases List.mem_append.mp hc with hc | hc
  · exact (List.takeWhile_sublist _).subset (T.mem_of_mem_lower _ c hc hascii halpha)
  · exact (List.dropWhile_sublist _).subset hc

/-- A port in decimal digits is read as its number. -/
theorem port_of_digits {n : Nat} (h : parts.hostinfo.2 = Nat.toDigits 10 n) (hn : n ≤ 65535) :
    parts.port = some (some n) := by
  have hne : Nat.toDigits 10 n ≠ [] := by
    rw [← List.length_pos_iff]
    exact Nat.length_toDigits_pos
  have hdigits : (Nat.toDigits 10 n).all Char.isDigit = true :=
    List.all_eq_true.mpr fun c hc => Nat.isDigit_of_mem_toDigits (by decide) (by decide) hc
  have hlength : (Nat.toDigits 10 n).length ≤ MAX_STR_DIGITS := by
    have hfew : (Nat.toDigits 10 n).length ≤ 5 :=
      (Nat.length_toDigits_le_iff (by decide) (by decide)).mpr (by omega)
    exact hfew.trans (by decide)
  have hvalue : Nat.ofDigitChars 10 (Nat.toDigits 10 n) 0 = n :=
    Nat.ofDigitChars_toDigits (by decide) (by decide)
  simp only [Split.port, h, if_neg hne, hvalue, hdigits, hlength, hn, and_self, if_true]

theorem port_le {n : Nat} (h : parts.port = some (some n)) : n ≤ 65535 := by
  unfold Split.port at h
  dsimp only at h
  split_ifs at h with hnil hvalid
  · cases h
  · cases h
    exact hvalid.2.2

/-! ## ASCII -/

theorem isLower_map_toLower (cs : List Char) (c : Char) (h : c ∈ cs.map Char.toLower) :
    (c.toLower == c) = true := by
  obtain ⟨d, -, rfl⟩ := List.mem_map.mp h
  rw [AsciiCase.toLower_toLower, beq_self_eq_true]

theorem map_toLower_of_isLower (cs : List Char) (h : ∀ c ∈ cs, (c.toLower == c) = true) :
    cs.map Char.toLower = cs :=
  (List.map_congr_left fun c hc => beq_iff_eq.mp (h c hc)).trans (List.map_id cs)

theorem map_toLower_ne_nil (cs : List Char) (h : cs ≠ []) : cs.map Char.toLower ≠ [] :=
  fun hnil => h (List.map_eq_nil_iff.mp hnil)

theorem toLower_digit (c : Char) (h : c.isDigit = true) : (c.toLower == c) = true := by
  rcases AsciiCase.toLower_eq_or c with hsame | ⟨halpha, -⟩
  · rw [hsame, beq_self_eq_true]
  · have hall : ∀ n < 58, 48 ≤ n → (Char.ofNat n).isAlpha = false := by decide
    simp only [Char.isDigit, ge_iff_le, Bool.and_eq_true, decide_eq_true_eq] at h
    have hlow : 48 ≤ c.toNat := UInt32.le_iff_toNat_le.mp h.1
    have hhigh : c.toNat ≤ 57 := UInt32.le_iff_toNat_le.mp h.2
    rw [← Char.ofNat_toNat c, hall c.toNat (by omega) hlow] at halpha
    cases halpha

theorem toLower_colon : (':'.toLower == ':') = true := by decide

theorem mem_of_mem_map_toLower (cs : List Char) (c : Char) (h : c ∈ cs.map Char.toLower)
    (_ : c.toNat < 128) (halpha : c.isAlpha = false) : c ∈ cs := by
  obtain ⟨d, hd, rfl⟩ := List.mem_map.mp h
  rcases AsciiCase.toLower_eq_or d with hsame | ⟨-, hletter⟩
  · rwa [hsame]
  · rw [halpha] at hletter
    cases hletter

/-- As far as ASCII goes, and without addresses in brackets. -/
def Tables.ascii : Tables where
  lower cs := cs.map Char.toLower
  isLower c := c.toLower == c
  bracketsOk _ := false
  compatible _ := true
  isLower_lower := isLower_map_toLower
  lower_of_isLower := map_toLower_of_isLower
  lower_ne_nil := map_toLower_ne_nil
  isLower_digit := toLower_digit
  isLower_colon := toLower_colon
  mem_of_mem_lower := mem_of_mem_map_toLower

end Url
