/-
  Slas.Schemas.EnvFile

  `.env` files (`slas_schemas.envfile`): one writer for the installer and for the settings page,
  over the lines of the file.

  Theorems:
    envFile_iff — for which keys and values a file that is written and read again has the
                  value, and is otherwise as it was.
-/

import Slas.Lib.Text

namespace Slas

namespace EnvFile

/-! ## Lines -/

/-- One physical line; comments and blank lines have no key. -/
structure Line where
  raw : List Char
  key : Option (List Char) := none
  value : Option (List Char) := none
  deriving DecidableEq

def isKeyFirst (c : Char) : Bool := ('A' ≤ c && c ≤ 'Z') || ('a' ≤ c && c ≤ 'z') || c == '_'

def isKeyChar (c : Char) : Bool := isKeyFirst c || ('0' ≤ c && c ≤ '9')

/-- `[A-Za-z0-9_./:@,+-]` -/
def isBare (c : Char) : Bool := isKeyChar c || "./:@,+-".toList.contains c

/-- What `$` allows at the end: one newline. -/
def chomp (cs : List Char) : List Char := if cs.getLast? = some '\n' then cs.dropLast else cs

def isKey : List Char → Bool
  | [] => false
  | c :: cs => isKeyFirst c && cs.all isKeyChar

/-- `_KEY.match` -/
def keyMatch (key : List Char) : Bool := isKey (chomp key)

/-- `_BARE_VALUE.match` -/
def bareMatch (value : List Char) : Bool := (chomp value).all isBare

/-- A key, an equals sign and the rest, at the beginning. -/
def assignmentAt (cs : List Char) : Option (List Char × List Char) :=
  let key := cs.takeWhile isKeyChar
  match (cs.dropWhile isKeyChar).dropWhile Lines.isSpace with
  | '=' :: value => if isKey key ∧ '\n' ∉ chomp value then some (key, chomp value) else none
  | _ => none

/-- What follows `export\s+`. -/
def afterExport (cs : List Char) : Option (List Char) :=
  match cs.drop 6 with
  | c :: rest =>
    if "export".toList.isPrefixOf cs ∧ Lines.isSpace c then some (rest.dropWhile Lines.isSpace)
    else none
  | [] => none

/-- `_ASSIGNMENT.match`: the key and the value. -/
def assignment (raw : List Char) : Option (List Char × List Char) :=
  let cs := raw.dropWhile Lines.isSpace
  ((afterExport cs).bind assignmentAt).or (assignmentAt cs)

/-- The loop of `_unquote` in double quotes. -/
def unescape : List Char → List Char
  | [] => []
  | ['\\'] => []
  | '\\' :: c :: cs => c :: unescape cs
  | c :: cs => c :: unescape cs

/-- `text.partition(" #")`: what is before. -/
def beforeComment : List Char → List Char
  | [] => []
  | ' ' :: '#' :: _ => []
  | c :: cs => c :: beforeComment cs

/-- The text stands between two of the quotes. -/
def quotedBy (quote : Char) (text : List Char) : Bool :=
  2 ≤ text.length && text.head? == some quote && text.getLast? == some quote

/-- `_unquote` -/
def unquote (text : List Char) : List Char :=
  let text := Text.strip text
  if quotedBy '\'' text then text.tail.dropLast
  else if quotedBy '"' text then unescape text.tail.dropLast
  else Text.strip (beforeComment text)

/-- `str.replace`, of one character. -/
def replaceChar (old : Char) (new cs : List Char) : List Char :=
  cs.flatMap fun c => if c = old then new else [c]

/-- `_quote` -/
def quote (value : List Char) : List Char :=
  if bareMatch value then value
  else '"' :: replaceChar '"' ['\\', '"'] (replaceChar '\\' ['\\', '\\'] value) ++ ['"']

def parseLine (raw : List Char) : Line :=
  match assignment raw with
  | some (key, value) =>
    if (raw.dropWhile Lines.isSpace).head? = some '#' then ⟨raw, none, none⟩
    else ⟨raw, some key, some (unquote value)⟩
  | none => ⟨raw, none, none⟩

/-! ## Files -/

def parse (text : List Char) : List Line :=
  let parts := text.splitOn '\n'
  (if parts.getLast? = some [] then parts.dropLast else parts).map parseLine

def render (lines : List Line) : List Char := lines.flatMap fun line => line.raw ++ ['\n']

def keys (lines : List Line) : List (List Char) := (lines.filterMap (·.key)).eraseDups

/-- The value of the last assignment of a key. -/
def get (key : List Char) (lines : List Line) : Option (List Char) :=
  (lines.reverse.find? fun line => line.key = some key).bind (·.value)

/-- The last assignment of the key as another line, if there is one. -/
def replaceLast (key : List Char) (new : Line) : List Line → Option (List Line)
  | [] => none
  | line :: lines =>
    match replaceLast key new lines with
    | some lines => some (line :: lines)
    | none =>
      if line.key = some key then some ((if line.raw = new.raw then line else new) :: lines)
      else none

/-- A comment that keys are grouped under. -/
structure Marker where
  text : List Char
  comment : text.head? = some '#'
  oneLine : '\n' ∉ text

/-- A line after the marker and the assignments under it, if the marker is there. -/
def insertUnder (marker : List Char) (new : Line) : List Line → Option (List Line)
  | [] => none
  | line :: lines =>
    if line.key = none ∧ line.raw = marker then
      some (line :: (lines.takeWhile (·.key.isSome) ++ new :: lines.dropWhile (·.key.isSome)))
    else (insertUnder marker new lines).map (line :: ·)

/-- A line that is missing, at its place. -/
def append (underMarker : Option Marker) (new : Line) (lines : List Line) : List Line :=
  match underMarker with
  | none => lines ++ [new]
  | some marker =>
    match insertUnder marker.text new lines with
    | some lines => lines
    | none =>
      lines ++ (if lines.getLast?.any fun line => Text.strip line.raw ≠ [] then [⟨[], none, none⟩]
        else []) ++ [⟨marker.text, none, none⟩, new]

/-- `set`; a key that is none raises. -/
def set (key value : List Char) (underMarker : Option Marker) (lines : List Line) :
    Except String (List Line) :=
  if keyMatch key then
    let new : Line := ⟨key ++ '=' :: quote value, some key, some value⟩
    .ok ((replaceLast key new lines).getD (append underMarker new lines))
  else .error "not a valid .env key"

/-! ## What a file keeps -/

/-- The key has the value; the other keys and the other lines are as before. -/
structure Kept (key value : List Char) (before after : List Line) : Prop where
  value : get key after = some value
  others : ∀ other, other ≠ key → get other after = get other before
  raw : ∃ pre old new post, before.map (·.raw) = pre ++ old ++ post ∧
    after.map (·.raw) = pre ++ new ++ post ∧ old.length ≤ 1 ∧
    ∀ line ∈ old, (parseLine line).key = some key
  keys : ∀ other ∈ keys after, other = key ∨ other ∈ keys before

/-- A key that was set is there when the file is written and read again. -/
def SetKeeps (text key value : List Char) (marker : Option Marker) : Prop :=
  ∀ lines, set key value marker (parse text) = .ok lines →
    Kept key value (parse text) (parse (render lines))

/-- The text is empty or ends with a newline. -/
def EndsLine (text : List Char) : Prop := text = [] ∨ text.getLast? = some '\n'

variable {text key value raw cs rest : List Char} {line new : Line} {lines : List Line}
  {marker : Option Marker} {c : Char}

/-! ## Files and their lines -/

theorem raw_parseLine (raw : List Char) : (parseLine raw).raw = raw := by
  unfold parseLine
  split
  · split_ifs <;> rfl
  · rfl

/-- The lines of a text, as they stand in it. -/
def rawLines (text : List Char) : List (List Char) :=
  if (text.splitOn '\n').getLast? = some [] then (text.splitOn '\n').dropLast
  else text.splitOn '\n'

theorem parse_eq (text : List Char) : parse text = (rawLines text).map parseLine := rfl

theorem newline_not_mem_rawLines (h : raw ∈ rawLines text) : '\n' ∉ raw := by
  have hmem : raw ∈ text.splitOn '\n' := by
    unfold rawLines at h
    split_ifs at h
    · exact (List.dropLast_sublist _).subset h
    · exact h
  exact fun hin => (Text.mem_splitOn hmem '\n' hin).2 rfl

/-- Lines that are written are read as they stand. -/
theorem rawLines_flatMap {raws : List (List Char)} (h : ∀ raw ∈ raws, '\n' ∉ raw) :
    rawLines (raws.flatMap fun raw => raw ++ ['\n']) = raws := by
  have hsplit : (raws.flatMap fun raw => raw ++ ['\n']).splitOn '\n' = raws ++ [[]] := by
    induction raws with
    | nil => rfl
    | cons raw raws ih =>
      rw [List.flatMap_cons, List.append_assoc, List.singleton_append,
        List.splitOn_append_cons_self_of_not_mem (h raw List.mem_cons_self),
        ih fun other hother => h other (List.mem_cons_of_mem _ hother), List.cons_append]
  rw [rawLines, hsplit, List.getLast?_concat, if_pos rfl, List.dropLast_concat]

theorem parse_render (h : ∀ line ∈ lines, '\n' ∉ line.raw) :
    parse (render lines) = (lines.map (·.raw)).map parseLine := by
  have hraws : ∀ raw ∈ lines.map (·.raw), '\n' ∉ raw := by
    intro raw hraw
    obtain ⟨line, hline, rfl⟩ := List.mem_map.mp hraw
    exact h line hline
  have hrender : render lines = (lines.map (·.raw)).flatMap fun raw => raw ++ ['\n'] := by
    rw [render, List.flatMap_map]
  rw [parse_eq, hrender, rawLines_flatMap hraws]

/-- A text of whole lines is written as it was read. -/
theorem render_parse (h : EndsLine text) : render (parse text) = text := by
  have hrender : render (parse text) = (rawLines text).flatMap fun raw => raw ++ ['\n'] := by
    rw [render, parse_eq, List.flatMap_map]
    simp only [raw_parseLine]
  rw [hrender]
  rcases h with rfl | hnewline
  · rfl
  · obtain ⟨front, rfl⟩ := List.getLast?_eq_some_iff.mp hnewline
    have hlines : front ++ ['\n'] = (front.splitOn '\n').flatMap fun raw => raw ++ ['\n'] := by
      rw [← Text.intercalate_append (List.splitOn_ne_nil _ _), List.intercalate_splitOn]
    have hraws : ∀ raw ∈ front.splitOn '\n', '\n' ∉ raw := fun raw hraw hin =>
      (Text.mem_splitOn hraw '\n' hin).2 rfl
    rw [hlines, rawLines_flatMap hraws]

/-! ## One line -/

/-- The characters of keys and bare values are no space, no quote and no comment. -/
theorem isBare_spec (h : isBare c = true) : Lines.isSpace c = false ∧ c ≠ '"' ∧ c ≠ '\'' := by
  have hrange : 0x2b ≤ c.toNat ∧ c.toNat ≤ 0x7a := by
    simp only [isBare, isKeyChar, isKeyFirst, Bool.or_eq_true, Bool.and_eq_true,
      decide_eq_true_eq, beq_iff_eq, Char.le_def, UInt32.le_iff_toNat_le] at h
    change (((((65 ≤ c.toNat ∧ c.toNat ≤ 90) ∨ (97 ≤ c.toNat ∧ c.toNat ≤ 122)) ∨ c = '_') ∨
      (48 ≤ c.toNat ∧ c.toNat ≤ 57)) ∨ "./:@,+-".toList.contains c = true) at h
    rcases h with (((h | h) | rfl) | h) | h
    · omega
    · omega
    · decide
    · omega
    · have hall : ("./:@,+-".toList.all fun d => decide (0x2b ≤ d.toNat ∧ d.toNat ≤ 0x7a)) =
          true := by decide
      exact of_decide_eq_true (List.all_eq_true.mp hall c (List.contains_iff_mem.mp h))
  refine ⟨?_, ?_, ?_⟩
  · simp only [Lines.isSpace, Bool.or_eq_false_iff, Bool.and_eq_false_iff, decide_eq_false_iff_not]
    omega
  · rintro rfl
    exact absurd hrange (by decide)
  · rintro rfl
    exact absurd hrange (by decide)

theorem isBare_of_isKeyChar (h : isKeyChar c = true) : isBare c = true := by
  rw [isBare, h, Bool.true_or]

/-- What is bare is read as it is. -/
theorem unquote_bare (h : value.all isBare = true) : unquote value = value := by
  have hspace : ∀ c ∈ value, Lines.isSpace c = false := fun c hc =>
    (isBare_spec (List.all_eq_true.mp h c hc)).1
  have hstrip : Text.strip value = value :=
    Text.stripBy_of_trimmed (Text.trimmed_of_forall hspace)
  have hquoted : ∀ quote, quote = '"' ∨ quote = '\'' → quotedBy quote value = false := by
    intro quote hquote
    by_contra htrue
    simp only [quotedBy, Bool.not_eq_false, Bool.and_eq_true, beq_iff_eq] at htrue
    have hbare := isBare_spec (List.all_eq_true.mp h quote (List.mem_of_head? htrue.1.2))
    rcases hquote with rfl | rfl
    · exact hbare.2.1 rfl
    · exact hbare.2.2 rfl
  have hcomment : beforeComment value = value := by
    clear hquoted hstrip h
    induction value with
    | nil => rfl
    | cons c cs ih =>
      have hc : c ≠ ' ' := by
        rintro rfl
        exact absurd (hspace ' ' List.mem_cons_self) (by decide)
      rw [beforeComment, ih fun d hd => hspace d (List.mem_cons_of_mem _ hd)]
      exact fun _ heq => absurd heq hc
  unfold unquote
  dsimp only
  rw [hstrip, hquoted '\'' (Or.inr rfl), hquoted '"' (Or.inl rfl), hcomment, hstrip]
  rfl

def escaped (value : List Char) : List Char :=
  replaceChar '"' ['\\', '"'] (replaceChar '\\' ['\\', '\\'] value)

theorem escaped_cons (c : Char) (cs : List Char) : escaped (c :: cs) =
    (if c = '\\' then ['\\', '\\'] else if c = '"' then ['\\', '"'] else [c]) ++ escaped cs := by
  by_cases hslash : c = '\\'
  · subst hslash
    rfl
  · by_cases hquote : c = '"'
    · subst hquote
      rfl
    · simp [escaped, replaceChar, hslash, hquote]

/-- What is escaped is read as it was. -/
theorem unescape_escaped (value : List Char) : unescape (escaped value) = value := by
  induction value with
  | nil => rfl
  | cons c cs ih =>
    rw [escaped_cons]
    split_ifs with hslash hquote
    · rw [List.cons_append, List.singleton_append, unescape, ih, hslash]
    · rw [List.cons_append, List.singleton_append, unescape, ih, hquote]
    · rw [List.singleton_append, unescape, ih]
      · exact fun h _ => absurd h hslash
      · exact fun _ _ h _ => absurd h hslash

theorem unquote_quoted (value : List Char) : unquote ('"' :: escaped value ++ ['"']) = value := by
  have hstrip : Text.strip ('"' :: escaped value ++ ['"']) = '"' :: escaped value ++ ['"'] := by
    refine Text.stripBy_of_trimmed ⟨fun c hc => ?_, fun c hc => ?_⟩
    · rw [List.cons_append, List.head?_cons, Option.mem_some_iff] at hc
      subst hc
      decide
    · rw [List.getLast?_concat, Option.mem_some_iff] at hc
      subst hc
      decide
  have hsingle : quotedBy '\'' ('"' :: escaped value ++ ['"']) = false := by
    simp [quotedBy]
  have hdouble : quotedBy '"' ('"' :: escaped value ++ ['"']) = true := by
    rw [quotedBy, List.getLast?_concat]
    simp
  unfold unquote
  dsimp only
  rw [hstrip, hsingle, hdouble, if_neg (by simp), if_pos rfl, List.cons_append, List.tail_cons,
    List.dropLast_concat, unescape_escaped]

theorem unquote_quote (h : '\n' ∉ value) : unquote (quote value) = value := by
  have hchomp : chomp value = value := by
    rw [chomp, if_neg]
    exact fun hlast => h (List.mem_of_getLast? hlast)
  unfold quote bareMatch
  rw [hchomp]
  split_ifs with hbare
  · exact unquote_bare hbare
  · exact unquote_quoted value

theorem isKeyChar_spec (h : isKeyChar c = true) :
    Lines.isSpace c = false ∧ c ≠ '=' ∧ c ≠ '#' ∧ c ≠ '\n' := by
  have hspace := (isBare_spec (isBare_of_isKeyChar h)).1
  refine ⟨hspace, ?_, ?_, ?_⟩
  · rintro rfl
    exact absurd h (by decide)
  · rintro rfl
    exact absurd h (by decide)
  · rintro rfl
    exact absurd hspace (by decide)

/-- A valid key without a newline at its end. -/
theorem isKey_of_keyMatch (h : keyMatch key = true) (hline : '\n' ∉ key) : isKey key = true := by
  have hchomp : chomp key = key := by
    rw [chomp, if_neg]
    exact fun hlast => hline (List.mem_of_getLast? hlast)
  rwa [keyMatch, hchomp] at h

theorem isKey_spec (h : isKey key = true) : key ≠ [] ∧ key.all isKeyChar = true := by
  cases key with
  | nil => cases h
  | cons c cs =>
    rw [isKey, Bool.and_eq_true] at h
    exact ⟨by simp, by rw [List.all_cons, isKeyChar, h.1, h.2]; rfl⟩

theorem assignmentAt_line (hkey : isKey key = true) (hvalue : '\n' ∉ rest) :
    assignmentAt (key ++ '=' :: rest) = some (key, rest) := by
  have hall := List.all_eq_true.mp (isKey_spec hkey).2
  have htake : (key ++ '=' :: rest).takeWhile isKeyChar = key := by
    rw [List.takeWhile_append_of_pos hall, List.takeWhile_cons, if_neg (by decide), List.append_nil]
  have hdrop : ((key ++ '=' :: rest).dropWhile isKeyChar).dropWhile Lines.isSpace = '=' :: rest := by
    rw [List.dropWhile_append_of_pos hall, List.dropWhile_cons, if_neg (by decide),
      List.dropWhile_cons, if_neg (by decide)]
  have hchomp : chomp rest = rest := by
    rw [chomp, if_neg]
    exact fun hlast => hvalue (List.mem_of_getLast? hlast)
  simp only [assignmentAt, htake, hdrop, hchomp, if_pos (And.intro hkey hvalue)]

theorem newline_not_mem_escaped (h : '\n' ∉ value) : '\n' ∉ escaped value := by
  induction value with
  | nil => exact h
  | cons c cs ih =>
    rw [List.mem_cons, not_or] at h
    rw [escaped_cons, List.mem_append, not_or]
    refine ⟨?_, ih h.2⟩
    split_ifs
    · decide
    · decide
    · simpa using h.1

theorem newline_not_mem_quote (h : '\n' ∉ value) : '\n' ∉ quote value := by
  unfold quote
  split_ifs
  · exact h
  · have hescaped := newline_not_mem_escaped h
    rw [escaped] at hescaped
    simp [hescaped]

/-- No key is followed by a space: `export` at its beginning is part of it. -/
theorem afterExport_line (hkey : isKey key = true) : afterExport (key ++ '=' :: rest) = none := by
  have hall := List.all_eq_true.mp (isKey_spec hkey).2
  unfold afterExport
  split
  · next c tail hdrop =>
    rw [if_neg]
    rintro ⟨hstarts, hspace⟩
    obtain ⟨after, hafter⟩ := List.isPrefixOf_iff_prefix.mp hstarts
    have htail : after = c :: tail := by
      have hlength := congrArg (List.drop 6) hafter
      rw [hdrop] at hlength
      exact hlength
    rw [htail] at hafter
    rcases List.append_eq_append_iff.mp hafter with ⟨mid, hmid, hrest⟩ | ⟨mid, hmid, hrest⟩
    · cases mid with
      | nil =>
        cases (List.cons.inj hrest).1
        exact absurd hspace (by decide)
      | cons d mid =>
        obtain ⟨rfl, -⟩ := List.cons.inj hrest
        have hkeyChar := hall c (hmid ▸ by simp)
        rw [(isKeyChar_spec hkeyChar).1] at hspace
        cases hspace
    · cases mid with
      | nil =>
        cases (List.cons.inj hrest).1
        exact absurd hspace (by decide)
      | cons d mid =>
        obtain ⟨rfl, -⟩ := List.cons.inj hrest
        have hequals : '=' ∈ "export".toList := hmid ▸ by simp
        exact absurd hequals (by decide)
  · rfl

/-- The line of `set` is read as the key and the value. -/
theorem parseLine_set (hkey : keyMatch key = true) (hline : '\n' ∉ key) (hvalue : '\n' ∉ value) :
    parseLine (key ++ '=' :: quote value) =
      ⟨key ++ '=' :: quote value, some key, some value⟩ := by
  have hvalid := isKey_of_keyMatch hkey hline
  obtain ⟨hne, hall⟩ := isKey_spec hvalid
  obtain ⟨c, cs, rfl⟩ := List.exists_cons_of_ne_nil hne
  obtain ⟨hspace, -, hcomment, -⟩ := isKeyChar_spec (List.all_eq_true.mp hall c List.mem_cons_self)
  have hstart : (c :: cs ++ '=' :: quote value).dropWhile Lines.isSpace =
      c :: cs ++ '=' :: quote value := by
    rw [List.cons_append, List.dropWhile_cons, hspace, if_neg (by simp)]
  have hat := assignmentAt_line hvalid (newline_not_mem_quote hvalue)
  have hassignment : assignment (c :: cs ++ '=' :: quote value) =
      some (c :: cs, quote value) := by
    simp only [assignment, hstart, afterExport_line hvalid, Option.bind_none, Option.none_or, hat]
  rw [parseLine, hassignment, hstart]
  dsimp only
  rw [List.cons_append, List.head?_cons, if_neg (by simpa using hcomment), unquote_quote hvalue]

theorem parseLine_of_comment (h : raw.head? = some '#') : parseLine raw = ⟨raw, none, none⟩ := by
  obtain ⟨rest, rfl⟩ := List.head?_eq_some_iff.mp h
  have hstart : ('#' :: rest).dropWhile Lines.isSpace = '#' :: rest := by
    rw [List.dropWhile_cons, if_neg (by decide)]
  have hcomment : (('#' :: rest).dropWhile Lines.isSpace).head? = some '#' := by
    rw [hstart, List.head?_cons]
  unfold parseLine
  split
  · rw [if_pos hcomment]
  · rfl

theorem mem_unescape (h : c ∈ unescape cs) : c ∈ cs := by
  induction cs using unescape.induct with
  | case1 => simp [unescape] at h
  | case2 => simp [unescape] at h
  | case3 d cs ih =>
    rw [unescape, List.mem_cons] at h
    rcases h with rfl | h
    · simp
    · simp [ih h]
  | case4 d cs hlast hslash ih =>
    rw [unescape, List.mem_cons] at h
    · rcases h with rfl | h
      · simp
      · simp [ih h]
    · exact hlast
    · exact hslash

theorem mem_beforeComment (h : c ∈ beforeComment cs) : c ∈ cs := by
  induction cs using beforeComment.induct with
  | case1 => simp [beforeComment] at h
  | case2 => simp [beforeComment] at h
  | case3 d cs hmark ih =>
    rw [beforeComment, List.mem_cons] at h
    · rcases h with rfl | h
      · simp
      · simp [ih h]
    · exact hmark

theorem mem_unquote (h : c ∈ unquote cs) : c ∈ cs := by
  have hinner : ∀ {d}, d ∈ (Text.strip cs).tail.dropLast → d ∈ cs := fun hd =>
    Text.mem_of_mem_stripBy (List.mem_of_mem_tail ((List.dropLast_sublist _).subset hd))
  unfold unquote at h
  dsimp only at h
  split_ifs at h
  · exact hinner h
  · exact hinner (mem_unescape h)
  · exact Text.mem_of_mem_stripBy (mem_beforeComment (Text.mem_of_mem_stripBy h))

theorem assignmentAt_spec {k v : List Char} (h : assignmentAt cs = some (k, v)) :
    k.all isKeyChar = true ∧ '\n' ∉ v := by
  unfold assignmentAt at h
  dsimp only at h
  split at h
  · split_ifs at h with hvalid
    obtain ⟨rfl, rfl⟩ := Prod.mk.inj (Option.some.inj h)
    exact ⟨List.all_takeWhile, hvalid.2⟩
  · cases h

/-- No key and no value of a line has a newline. -/
theorem parseLine_newline :
    (∀ k, (parseLine raw).key = some k → '\n' ∉ k) ∧
      ∀ v, (parseLine raw).value = some v → '\n' ∉ v := by
  cases hassignment : assignment raw with
  | none => simp [parseLine, hassignment]
  | some found =>
    obtain ⟨k, v⟩ := found
    have hspec : k.all isKeyChar = true ∧ '\n' ∉ v := by
      unfold assignment at hassignment
      dsimp only at hassignment
      rcases Option.or_eq_some_iff.mp hassignment with hexport | ⟨-, hplain⟩
      · obtain ⟨rest, -, hrest⟩ := Option.bind_eq_some_iff.mp hexport
        exact assignmentAt_spec hrest
      · exact assignmentAt_spec hplain
    have hkey : '\n' ∉ k := fun hin =>
      (isKeyChar_spec (List.all_eq_true.mp hspec.1 _ hin)).2.2.2 rfl
    have hvalue : '\n' ∉ unquote v := fun hin => hspec.2 (mem_unquote hin)
    simp only [parseLine, hassignment]
    split_ifs
    · simp
    · simp [hkey, hvalue]

/-! ## A key that is set -/

/-- The lines are as they would be read. -/
def AsRead (lines : List Line) : Prop := ∀ line ∈ lines, parseLine line.raw = line ∧ '\n' ∉ line.raw

theorem asRead_parse (text : List Char) : AsRead (parse text) := by
  intro line hline
  rw [parse_eq] at hline
  obtain ⟨raw, hraw, rfl⟩ := List.mem_map.mp hline
  rw [raw_parseLine]
  exact ⟨rfl, newline_not_mem_rawLines hraw⟩

theorem parse_render_asRead (h : AsRead lines) : parse (render lines) = lines := by
  rw [parse_render fun line hline => (h line hline).2, List.map_map]
  exact (List.map_congr_left fun line hline => (h line hline).1).trans (List.map_id lines)

theorem replaceLast_none (h : replaceLast key new lines = none) :
    ∀ line ∈ lines, line.key ≠ some key := by
  induction lines with
  | nil => simp
  | cons line lines ih =>
    rw [replaceLast] at h
    cases hrest : replaceLast key new lines with
    | some _ => simp [hrest] at h
    | none =>
      simp only [hrest, ite_eq_right_iff, reduceCtorEq, imp_false] at h
      exact List.forall_mem_cons.mpr ⟨h, ih hrest⟩

/-- The last assignment of the key becomes the new line, unless it is that line already. -/
theorem replaceLast_some {replaced : List Line} (h : replaceLast key new lines = some replaced) :
    ∃ pre old post, lines = pre ++ old :: post ∧ old.key = some key ∧
      (∀ line ∈ post, line.key ≠ some key) ∧
      replaced = pre ++ (if old.raw = new.raw then old else new) :: post := by
  induction lines generalizing replaced with
  | nil => cases h
  | cons line lines ih =>
    rw [replaceLast] at h
    cases hrest : replaceLast key new lines with
    | some rest =>
      rw [hrest] at h
      cases Option.some.inj h
      obtain ⟨pre, old, post, rfl, hold, hpost, rfl⟩ := ih hrest
      exact ⟨line :: pre, old, post, rfl, hold, hpost, rfl⟩
    | none =>
      simp only [hrest, Option.ite_none_right_eq_some, Option.some.injEq] at h
      obtain ⟨hkey, rfl⟩ := h
      exact ⟨[], line, lines, rfl, hkey, replaceLast_none hrest, rfl⟩

theorem insertUnder_some {text : List Char} {inserted : List Line}
    (h : insertUnder text new lines = some inserted) :
    ∃ pre post, lines = pre ++ post ∧ inserted = pre ++ new :: post := by
  induction lines generalizing inserted with
  | nil => cases h
  | cons line lines ih =>
    rw [insertUnder] at h
    split_ifs at h with hmarker
    · cases Option.some.inj h
      exact ⟨line :: lines.takeWhile (·.key.isSome), lines.dropWhile (·.key.isSome),
        by rw [List.cons_append, List.takeWhile_append_dropWhile], rfl⟩
    · obtain ⟨rest, hrest, rfl⟩ := Option.map_eq_some_iff.mp h
      obtain ⟨pre, post, rfl, rfl⟩ := ih hrest
      exact ⟨line :: pre, post, rfl, rfl⟩

/-- A comment or a blank line. -/
def Plain (line : Line) : Prop := line.key = none ∧ parseLine line.raw = line ∧ '\n' ∉ line.raw

/-- A missing line is put in, after plain lines that may be new too. -/
theorem append_spec (marker : Option Marker) (new : Line) (lines : List Line) :
    ∃ pre plain post, lines = pre ++ post ∧
      append marker new lines = pre ++ plain ++ new :: post ∧ ∀ line ∈ plain, Plain line := by
  cases marker with
  | none => exact ⟨lines, [], [], by simp, by simp [append], by simp⟩
  | some marker =>
    rw [append]
    cases hinsert : insertUnder marker.text new lines with
    | some inserted =>
      obtain ⟨pre, post, hlines, rfl⟩ := insertUnder_some hinsert
      exact ⟨pre, [], post, hlines, by simp, by simp⟩
    | none =>
      refine ⟨lines, (if lines.getLast?.any fun line => Text.strip line.raw ≠ [] then
        [⟨[], none, none⟩] else []) ++ [⟨marker.text, none, none⟩], [], by simp, by simp, ?_⟩
      have hblank : Plain ⟨[], none, none⟩ := ⟨rfl, rfl, List.not_mem_nil⟩
      have hmarker : Plain ⟨marker.text, none, none⟩ :=
        ⟨rfl, parseLine_of_comment marker.comment, marker.oneLine⟩
      intro line hline
      rcases List.mem_append.mp hline with hline | hline
      · split_ifs at hline
        · exact List.mem_singleton.mp hline ▸ hblank
        · cases hline
      · exact List.mem_singleton.mp hline ▸ hmarker

/-- What `set` does to the lines: at most one goes, the new one comes, and with it plain
    ones; none after it assigns the key. -/
theorem set_spec {after : List Line} (hread : AsRead lines)
    (hnew : parseLine (key ++ '=' :: quote value) = ⟨key ++ '=' :: quote value, some key, some value⟩)
    (h : set key value marker lines = .ok after) :
    ∃ pre old plain post, lines = pre ++ old ++ post ∧
      after = pre ++ plain ++ ⟨key ++ '=' :: quote value, some key, some value⟩ :: post ∧
      old.length ≤ 1 ∧ (∀ line ∈ old, line.key = some key) ∧
      (∀ line ∈ post, line.key ≠ some key) ∧ ∀ line ∈ plain, Plain line := by
  unfold set at h
  split_ifs at h with hkey
  dsimp only at h
  have hafter := (Except.ok.inj h).symm
  cases hreplaced : replaceLast key ⟨key ++ '=' :: quote value, some key, some value⟩ lines with
  | some replaced =>
    obtain ⟨pre, old, post, rfl, hold, hpost, hlines⟩ := replaceLast_some hreplaced
    have hsame : old.raw = key ++ '=' :: quote value →
        old = ⟨key ++ '=' :: quote value, some key, some value⟩ := by
      intro hraw
      have hline := (hread old (by simp)).1
      rw [hraw, hnew] at hline
      exact hline.symm
    refine ⟨pre, [old], [], post, by simp, ?_, Nat.le_refl 1, by simpa using hold, hpost, by simp⟩
    rw [hafter, hreplaced, Option.getD_some, hlines, List.append_nil]
    split_ifs with hraw
    · rw [← hsame hraw]
    · rfl
  | none =>
    have hnone := replaceLast_none hreplaced
    obtain ⟨pre, plain, post, rfl, happend, hplain⟩ :=
      append_spec marker ⟨key ++ '=' :: quote value, some key, some value⟩ lines
    refine ⟨pre, [], plain, post, by simp, ?_, by simp, by simp,
      fun line hline => hnone line (List.mem_append_right _ hline), hplain⟩
    rw [hafter, hreplaced, Option.getD_none, happend]

theorem get_append_cons {pre post : List Line} (hkey : line.key = some key)
    (hpost : ∀ line ∈ post, line.key ≠ some key) : get key (pre ++ line :: post) = line.value := by
  have hnone : post.reverse.find? (fun line => line.key = some key) = none := by
    rw [List.find?_eq_none]
    intro other hother
    simpa using hpost other (List.mem_reverse.mp hother)
  rw [get, List.reverse_append, List.reverse_cons, List.find?_append, List.find?_append, hnone]
  simp [hkey]

/-- Lines that do not assign a key do not count for it. -/
theorem get_eq_of_filter {before after : List Line}
    (h : before.filter (fun line => line.key = some key) =
      after.filter fun line => line.key = some key) : get key before = get key after := by
  have hlast : ∀ lines : List Line, lines.reverse.find? (fun line => line.key = some key) =
      (lines.filter fun line => line.key = some key).reverse.head? := by
    intro lines
    rw [← List.filter_reverse, List.head?_filter]
  rw [get, get, hlast, hlast, h]

theorem mem_keys : key ∈ keys lines ↔ ∃ line ∈ lines, line.key = some key := by
  rw [keys, List.mem_eraseDups, List.mem_filterMap]

/-- A key and a value without newlines are kept. -/
theorem setKeeps_of_oneLine (hkey : '\n' ∉ key) (hvalue : '\n' ∉ value) :
    SetKeeps text key value marker := by
  intro after h
  have hmatch : keyMatch key = true := by
    by_contra hno
    rw [set, if_neg hno] at h
    cases h
  have hnew := parseLine_set hmatch hkey hvalue
  obtain ⟨pre, old, plain, post, hlines, rfl, hone, hold, hpost, hplain⟩ :=
    set_spec (asRead_parse text) hnew h
  have hbefore := asRead_parse text
  rw [hlines] at hbefore ⊢
  have hraw : '\n' ∉ key ++ '=' :: quote value := by
    simp [hkey, newline_not_mem_quote hvalue]
  have hread : AsRead (pre ++ plain ++ ⟨key ++ '=' :: quote value, some key, some value⟩ :: post) := by
    intro line hline
    simp only [List.mem_append, List.mem_cons] at hline
    rcases hline with (hpre | hin) | rfl | hin
    · exact hbefore line (by simp [hpre])
    · exact (hplain line hin).2
    · exact ⟨hnew, hraw⟩
    · exact hbefore line (by simp [hin])
  rw [parse_render_asRead hread]
  have hnokey : ∀ other, plain.filter (fun line => line.key = some other) = [] := by
    intro other
    rw [List.filter_eq_nil_iff]
    intro line hline
    simp [(hplain line hline).1]
  refine ⟨get_append_cons rfl hpost, fun other hother => get_eq_of_filter ?_, ?_, ?_⟩
  · have hold' : old.filter (fun line => line.key = some other) = [] := by
      rw [List.filter_eq_nil_iff]
      intro line hline
      simp [hold line hline, Ne.symm hother]
    simp [List.filter_append, hnokey, hold', Ne.symm hother]
  · refine ⟨pre.map (·.raw), old.map (·.raw), plain.map (·.raw) ++ [key ++ '=' :: quote value],
      post.map (·.raw), by simp, by simp, by simpa using hone, fun raw hin => ?_⟩
    obtain ⟨line, hline, rfl⟩ := List.mem_map.mp hin
    rw [(hbefore line (by simp [hline])).1, hold line hline]
  · intro other hin
    obtain ⟨line, hline, hkey'⟩ := mem_keys.mp hin
    simp only [List.mem_append, List.mem_cons] at hline
    rcases hline with (hpre | hin) | rfl | hin
    · exact Or.inr (mem_keys.mpr ⟨line, by simp [hpre], hkey'⟩)
    · exact absurd hkey' (by simp [(hplain line hin).1])
    · exact Or.inl (Option.some.inj hkey').symm
    · exact Or.inr (mem_keys.mpr ⟨line, by simp [hin], hkey'⟩)

/-- Nothing that is read has a newline in its key or its value. -/
theorem oneLine_of_get (h : get key (parse text) = some value) : '\n' ∉ key ∧ '\n' ∉ value := by
  rw [get] at h
  obtain ⟨line, hline, hvalue⟩ := Option.bind_eq_some_iff.mp h
  have hkey : line.key = some key := by simpa using List.find?_some hline
  have hin := List.mem_reverse.mp (List.mem_of_find?_eq_some hline)
  rw [parse_eq] at hin
  obtain ⟨raw, -, rfl⟩ := List.mem_map.mp hin
  exact ⟨parseLine_newline.1 key hkey, parseLine_newline.2 value hvalue⟩

/-- **Env files**: a text of whole lines is written as it was read; and a key that was set is
    kept exactly if neither the key nor the value has a newline. -/
theorem envFile_iff (text key value : List Char) (marker : Option Marker) :
    ((EndsLine text → render (parse text) = text) ∧ SetKeeps text key value marker) ↔
      (keyMatch key = true → '\n' ∉ key ∧ '\n' ∉ value) := by
  constructor
  · rintro ⟨-, hkeeps⟩ hkey
    exact oneLine_of_get (hkeeps _ (if_pos hkey)).value
  · intro h
    refine ⟨render_parse, ?_⟩
    by_cases hkey : keyMatch key = true
    · exact setKeeps_of_oneLine (h hkey).1 (h hkey).2
    · intro after hset
      rw [set, if_neg hkey] at hset
      cases hset

/-- A value of two lines injects another key, and one that ends with a newline loses it. -/
theorem newlines_lost :
    ¬ SetKeeps [] "SLAS_SITE_NAME".toList "lab\nSLAS_AIRGAP=false".toList none ∧
      ¬ SetKeeps [] "SLAS_SITE_NAME".toList "lab\n".toList none := by
  constructor
  · intro h
    exact absurd (h _ rfl).value (by decide)
  · intro h
    exact absurd (h _ rfl).value (by decide)

end EnvFile

end Slas
