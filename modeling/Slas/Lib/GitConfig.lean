/-
  Slas.Lib.GitConfig

  The syntax of git's configuration files, read one character after another: sections and
  subsections, variables, comments, quotes, escapes and lines that are continued.  Blanks around a
  value are dropped, a carriage return among them.

  `read_plain`: a plain text is read as it stands.  `plain_of_read`: no other text is, if the next
  line begins with a tab and a letter that no escape uses.
-/

import Mathlib.Data.List.Count
import Slas.Lib.Text

namespace GitConfig

/-! ## The reader -/

/-- A variable with its section, in lower case but for the subsection; without a value it is
    true. -/
abbrev Entry := List Char × Option (List Char)

/-- What a character belongs to. -/
inductive Mode where
  /-- between lines, or behind the header of a section -/
  | line
  | comment
  /-- the name of a section -/
  | header (name : List Char)
  /-- between the name of a section and the quote of its subsection -/
  | gap (name : List Char)
  | subsection (name sub : List Char)
  | subsectionEscape (name sub : List Char)
  /-- behind the quote that ends a subsection -/
  | close (name : List Char)
  | key (name : List Char)
  /-- between a variable and its `=` -/
  | afterKey (name : List Char)
  /-- a value: whether a quote is open, what it is so far, and the blanks behind it -/
  | value (key : List Char) (quoted : Bool) (kept blank : List Char)
  | escape (key : List Char) (quoted : Bool) (kept : List Char)
  deriving DecidableEq

/-- The section that was opened, and what the next character belongs to. -/
structure Reader where
  opened : Option (List Char) := none
  mode : Mode := .line
  deriving DecidableEq

def isWhite (c : Char) : Bool := c == ' ' || c == '\t' || c == '\r'

def isMark (c : Char) : Bool := c == '#' || c == ';'

def isKey (c : Char) : Bool := c.isAlphanum || c == '-'

/-- What an escape stands for; a line that ends in a backslash is continued. -/
def unescape (c : Char) : Option (List Char) :=
  if c = '\n' then some []
  else if c = 'n' then some ['\n']
  else if c = 't' then some ['\t']
  else if c = 'b' then some ['\x08']
  else if c = '"' ∨ c = '\\' then some [c]
  else none

/-- The blanks behind a value; those in front of it are dropped. -/
def pending (kept blank : List Char) (c : Char) : List Char :=
  if kept = [] then [] else blank ++ [c]

namespace Reader

variable (r : Reader)

/-- Between two lines, or where a variable may begin. -/
def onLine (c : Char) : Option Reader :=
  if c = '\n' ∨ isWhite c then some { r with mode := .line }
  else if isMark c then some { r with mode := .comment }
  else if c = '[' then some { r with mode := .header [] }
  else if c.isAlpha then
    r.opened.map fun section_ =>
      { r with mode := .key (section_ ++ ['.', c.toLower]) }
  else none

/-- In a value outside an escape. -/
def onValue (key : List Char) (quoted : Bool) (kept blank : List Char) (c : Char) :
    Option (Reader × List Entry) :=
  if c = '\n' then
    if quoted then none else some ({ r with mode := .line }, [(key, some kept)])
  else if !quoted && isWhite c then
    some ({ r with mode := .value key quoted kept (pending kept blank c) }, [])
  else if !quoted && isMark c then some ({ r with mode := .comment }, [(key, some kept)])
  else if c = '\\' then some ({ r with mode := .escape key quoted (kept ++ blank) }, [])
  else if c = '"' then some ({ r with mode := .value key (!quoted) (kept ++ blank) [] }, [])
  else some ({ r with mode := .value key quoted (kept ++ blank ++ [c]) [] }, [])

/-- Behind one character more, with the variable that it ends. -/
def step (c : Char) : Option (Reader × List Entry) :=
  match r.mode with
  | .line => (r.onLine c).map (·, [])
  | .comment => some (if c = '\n' then { r with mode := .line } else r, [])
  | .header name =>
    if c = ']' then some (⟨some name, .line⟩, [])
    else if isWhite c then some ({ r with mode := .gap name }, [])
    else if isKey c ∨ c = '.' then some ({ r with mode := .header (name ++ [c.toLower]) }, [])
    else none
  | .gap name =>
    if isWhite c then some (r, [])
    else if c = '"' then some ({ r with mode := .subsection name [] }, [])
    else none
  | .subsection name sub =>
    if c = '\n' then none
    else if c = '\\' then some ({ r with mode := .subsectionEscape name sub }, [])
    else if c = '"' then some ({ r with mode := .close (name ++ '.' :: sub) }, [])
    else some ({ r with mode := .subsection name (sub ++ [c]) }, [])
  | .subsectionEscape name sub =>
    if c = '\n' then none else some ({ r with mode := .subsection name (sub ++ [c]) }, [])
  | .close name => if c = ']' then some (⟨some name, .line⟩, []) else none
  | .key name =>
    if isKey c then some ({ r with mode := .key (name ++ [c.toLower]) }, [])
    else if c = '\n' then some ({ r with mode := .line }, [(name, none)])
    else if isWhite c then some ({ r with mode := .afterKey name }, [])
    else if c = '=' then some ({ r with mode := .value name false [] [] }, [])
    else none
  | .afterKey name =>
    if c = '\n' then some ({ r with mode := .line }, [(name, none)])
    else if isWhite c then some (r, [])
    else if c = '=' then some ({ r with mode := .value name false [] [] }, [])
    else none
  | .value key quoted kept blank => r.onValue key quoted kept blank c
  | .escape key quoted kept =>
    (unescape c).map fun cs => ({ r with mode := .value key quoted (kept ++ cs) [] }, [])

/-- What ends with the text. -/
def finish : Option (List Entry) :=
  match r.mode with
  | .line | .comment => some []
  | .key name | .afterKey name => some [(name, none)]
  | .value key false kept _ | .escape key false kept => some [(key, some kept)]
  | _ => none

/-- The variables of a text. -/
def read : Reader → List Char → Option (List Entry)
  | r, [] => r.finish
  | r, c :: cs => do
    let (r', done) ← r.step c
    let later ← read r' cs
    return done ++ later

end Reader

/-- The variables of a file; a line that is none of these is an error. -/
def parse (text : List Char) : Option (List Entry) := Reader.read {} text

example : parse "[a \"B\"]\n  Key = x \\\n y ; z\n\tw\n".toList =
    some [("a.B.key".toList, some "x  y".toList), ("a.B.w".toList, none)] := by decide

/-! ## Plain texts -/

/-- What a value may not have in it. -/
def isSpecial (c : Char) : Bool := c == '\n' || c == '"' || c == '\\' || isMark c

/-- A text without special characters and without blanks around it. -/
structure Plain (cs : List Char) : Prop where
  ordinary : ∀ c ∈ cs, isSpecial c = false
  trimmed : Text.Trimmed isWhite cs

variable {r r' : Reader} {key kept blank cs tail v : List Char} {quoted : Bool} {c letter : Char}
  {entries done : List Entry} {o : Option (List Char)}

theorem read_cons (h : r.step c = some (r', done)) :
    r.read (c :: cs) = (r'.read cs).map (done ++ ·) := by
  rw [Reader.read, h]
  simp only [Option.bind_eq_bind, Option.bind_some]
  cases r'.read cs <;> rfl

theorem read_on (h : r.step c = some (r', [])) : r.read (c :: cs) = r'.read cs := by
  rw [read_cons h]
  cases r'.read cs <;> rfl

/-- Over a text in which no variable ends. -/
def Reader.advance : Reader → List Char → Option Reader
  | r, [] => some r
  | r, c :: cs =>
    match r.step c with
    | some (r', []) => r'.advance cs
    | _ => none

theorem read_advance (h : r.advance cs = some r') : r.read (cs ++ tail) = r'.read tail := by
  induction cs generalizing r with
  | nil =>
    obtain rfl := Option.some.inj h
    rfl
  | cons c cs ih =>
    rw [Reader.advance] at h
    split at h
    · rename_i next hstep
      rw [List.cons_append, read_on hstep, ih h]
    · cases h

theorem read_eq_some (h : r.read (c :: cs) = some entries) :
    ∃ r' done later, r.step c = some (r', done) ∧ r'.read cs = some later ∧
      entries = done ++ later := by
  rw [Reader.read] at h
  obtain ⟨⟨r', done⟩, hstep, h⟩ := Option.bind_eq_some_iff.mp h
  obtain ⟨later, hlater, h⟩ := Option.bind_eq_some_iff.mp h
  exact ⟨r', done, later, hstep, hlater, (Option.some.inj h).symm⟩

/-- What one character does to a value. -/
inductive Took (r : Reader) (key : List Char) (quoted : Bool) (kept blank : List Char) (c : Char) :
    Reader → List Entry → Prop where
  | ends (hc : c = '\n') (hquoted : quoted = false) :
      Took r key quoted kept blank c { r with mode := .line } [(key, some kept)]
  | blank (hc : isWhite c = true) (hquoted : quoted = false) :
      Took r key quoted kept blank c
        { r with mode := .value key quoted kept (pending kept blank c) } []
  | comment (hc : isMark c = true) (hquoted : quoted = false) :
      Took r key quoted kept blank c { r with mode := .comment } [(key, some kept)]
  | escape (hc : c = '\\') :
      Took r key quoted kept blank c { r with mode := .escape key quoted (kept ++ blank) } []
  | quote (hc : c = '"') :
      Took r key quoted kept blank c { r with mode := .value key (!quoted) (kept ++ blank) [] } []
  | char (hc : c ≠ '\n') (hquoted : quoted = false → isWhite c = false ∧ isSpecial c = false) :
      Took r key quoted kept blank c
        { r with mode := .value key quoted (kept ++ blank ++ [c]) [] } []

theorem took_of_onValue (h : r.onValue key quoted kept blank c = some (r', done)) :
    Took r key quoted kept blank c r' done := by
  unfold Reader.onValue at h
  split_ifs at h with hnewline hquoted hwhite hmark hslash hquote
  · cases h
    exact .ends hnewline (by simpa using hquoted)
  · cases h
    obtain ⟨hquoted, hc⟩ : quoted = false ∧ isWhite c = true := by simpa using hwhite
    exact .blank hc hquoted
  · cases h
    obtain ⟨hquoted, hc⟩ : quoted = false ∧ isMark c = true := by simpa using hmark
    exact .comment hc hquoted
  · cases h
    exact .escape hslash
  · cases h
    exact .quote hquote
  · cases h
    refine .char hnewline fun hquoted => ?_
    subst hquoted
    simp_all [isSpecial]

theorem escape_step (h : Reader.step ⟨o, .escape key quoted kept⟩ c = some (r', done)) :
    ∃ ds, unescape c = some ds ∧ ds.length ≤ 1 ∧ r' = ⟨o, .value key quoted (kept ++ ds) []⟩ ∧
      done = [] := by
  rw [Reader.step] at h
  obtain ⟨ds, hescape, heq⟩ := Option.map_eq_some_iff.mp h
  obtain ⟨rfl, rfl⟩ := Prod.mk.inj heq
  refine ⟨ds, hescape, ?_, rfl, rfl⟩
  unfold unescape at hescape
  split_ifs at hescape <;>
  · cases hescape
    simp

/-- A value keeps what it has. -/
theorem kept_part (cs : List Char) :
    (∀ quoted kept blank entries, Reader.read ⟨o, .value key quoted kept blank⟩ cs = some entries →
      ∃ v later, entries = (key, some v) :: later ∧ kept <+: v) ∧
    ∀ quoted kept entries, Reader.read ⟨o, .escape key quoted kept⟩ cs = some entries →
      ∃ v later, entries = (key, some v) :: later ∧ kept <+: v := by
  induction cs with
  | nil =>
    constructor
    · intro quoted kept blank entries h
      cases quoted with
      | false => exact ⟨kept, [], (Option.some.inj h).symm, List.prefix_rfl⟩
      | true => cases h
    · intro quoted kept entries h
      cases quoted with
      | false => exact ⟨kept, [], (Option.some.inj h).symm, List.prefix_rfl⟩
      | true => cases h
  | cons c cs ih =>
    constructor
    · intro quoted kept blank entries h
      obtain ⟨r', done, later, hstep, hread, rfl⟩ := read_eq_some h
      cases took_of_onValue hstep with
      | ends => exact ⟨kept, later, rfl, List.prefix_rfl⟩
      | blank => exact ih.1 _ _ _ _ hread
      | comment => exact ⟨kept, later, rfl, List.prefix_rfl⟩
      | escape =>
        obtain ⟨v, more, hv, hpart⟩ := ih.2 _ _ _ hread
        exact ⟨v, more, hv, (List.prefix_append _ _).trans hpart⟩
      | quote =>
        obtain ⟨v, more, hv, hpart⟩ := ih.1 _ _ _ _ hread
        exact ⟨v, more, hv, (List.prefix_append _ _).trans hpart⟩
      | char =>
        obtain ⟨v, more, hv, hpart⟩ := ih.1 _ _ _ _ hread
        refine ⟨v, more, hv, List.IsPrefix.trans ?_ hpart⟩
        rw [List.append_assoc]
        exact List.prefix_append _ _
    · intro quoted kept entries h
      obtain ⟨r', done, later, hstep, hread, rfl⟩ := read_eq_some h
      obtain ⟨ds, -, -, rfl, rfl⟩ := escape_step hstep
      obtain ⟨v, more, hv, hpart⟩ := ih.1 _ _ _ _ hread
      exact ⟨v, more, hv, (List.prefix_append _ _).trans hpart⟩

/-- A letter that stands for itself in a value, and that no escape uses. -/
structure Inert (letter : Char) : Prop where
  white : isWhite letter = false
  special : isSpecial letter = false
  escape : unescape letter = none

/-- A value that goes on over the end of its line has more of a letter that the next line begins
    with, behind a tab. -/
theorem count_of_continued (hletter : Inert letter)
    (h : Reader.read ⟨o, .value key quoted kept []⟩ ('\t' :: letter :: tail) = some entries) :
    ∃ v later, entries = (key, some v) :: later ∧ kept.count letter < v.count letter := by
  obtain ⟨r', done, later, hstep, hread, rfl⟩ := read_eq_some h
  have hmore : ∀ quoted' kept' blank' later',
      Reader.read ⟨o, .value key quoted' kept' blank'⟩ (letter :: tail) = some later' →
      ∃ v more, later' = (key, some v) :: more ∧ kept'.count letter < v.count letter := by
    intro quoted' kept' blank' later' hletterRead
    obtain ⟨r'', done', last, hstep', hrest, rfl⟩ := read_eq_some hletterRead
    have hspecial := hletter.special
    have hwhite := hletter.white
    cases took_of_onValue hstep' with
    | ends hc => simp [isSpecial, hc] at hspecial
    | blank hc => rw [hc] at hwhite; cases hwhite
    | comment hc => simp [isSpecial, hc] at hspecial
    | escape hc => simp [isSpecial, hc] at hspecial
    | quote hc => simp [isSpecial, hc] at hspecial
    | char =>
      obtain ⟨v, more, hv, hpart⟩ := (kept_part tail).1 _ _ _ _ hrest
      refine ⟨v, more, hv, lt_of_lt_of_le ?_ (hpart.sublist.count_le letter)⟩
      simp [List.count_append]
  cases took_of_onValue hstep with
  | ends hc => cases hc
  | blank => exact hmore _ _ _ _ hread
  | comment hc => cases hc
  | escape hc => cases hc
  | quote hc => cases hc
  | char =>
    obtain ⟨v, more, hv, hless⟩ := hmore _ _ _ _ hread
    exact ⟨v, more, hv, lt_of_le_of_lt (by simp [List.count_append]) hless⟩

/-- A value that ends on its line is not longer than what it was read from, and shorter if that is
    not plain. -/
structure OnLine (quoted : Bool) (kept blank cs v : List Char) : Prop where
  length : v.length ≤ kept.length + blank.length + cs.length
  plain : v.length = kept.length + blank.length + cs.length →
    quoted = false ∧ (∀ c ∈ cs, isSpecial c = false) ∧
      (∀ c ∈ (blank ++ cs).getLast?, isWhite c = false) ∧
      (kept = [] → ∀ c ∈ cs.head?, isWhite c = false)

theorem isSpecial_of_isWhite (h : isWhite c = true) : isSpecial c = false := by
  simp only [isWhite, Bool.or_eq_true, beq_iff_eq] at h
  rcases h with (rfl | rfl) | rfl <;> rfl

theorem getLast?_cons_of (h : cs.getLast? = some letter) : (c :: cs).getLast? = some letter := by
  rw [List.getLast?_cons, h, Option.getD_some]

theorem Inert.count_cons (hletter : Inert letter) (c : Char) (cs : List Char)
    (h : isWhite c = true ∨ isSpecial c = true) :
    (c :: cs).count letter = cs.count letter := by
  refine List.count_cons_of_ne ?_
  rintro rfl
  rcases h with h | h
  · rw [hletter.white] at h
    cases h
  · rw [hletter.special] at h
    cases h

namespace OnLine

/-- A value that is shorter than what it was read from. -/
theorem of_lt (h : v.length < kept.length + blank.length + cs.length) :
    OnLine quoted kept blank cs v :=
  ⟨h.le, fun heq => absurd heq h.ne⟩

theorem push_blank (hc : isWhite c = true) (hblank : kept = [] → blank = [])
    (h : OnLine false kept (pending kept blank c) cs v) : OnLine false kept blank (c :: cs) v := by
  unfold pending at h
  split_ifs at h with hkept
  · refine of_lt ?_
    have hlength := h.length
    rw [hblank hkept, List.length_cons]
    simp only [List.length_nil] at hlength ⊢
    omega
  · have hlength : kept.length + (blank ++ [c]).length + cs.length =
        kept.length + blank.length + (c :: cs).length := by
      rw [List.length_append, List.length_singleton, List.length_cons]
      omega
    refine ⟨hlength ▸ h.length, fun heq => ?_⟩
    obtain ⟨hquoted, hspecial, hlast, -⟩ := h.plain (heq.trans hlength.symm)
    refine ⟨hquoted, List.forall_mem_cons.mpr ⟨isSpecial_of_isWhite hc, hspecial⟩, ?_,
      fun hnil => absurd hnil hkept⟩
    simpa using hlast

theorem push_char (hc : quoted = false → isWhite c = false ∧ isSpecial c = false)
    (h : OnLine quoted (kept ++ blank ++ [c]) [] cs v) : OnLine quoted kept blank (c :: cs) v := by
  have hlength : (kept ++ blank ++ [c]).length + ([] : List Char).length + cs.length =
      kept.length + blank.length + (c :: cs).length := by
    simp only [List.length_append, List.length_cons, List.length_nil]
    omega
  refine ⟨hlength ▸ h.length, fun heq => ?_⟩
  obtain ⟨hquoted, hspecial, hlast, -⟩ := h.plain (heq.trans hlength.symm)
  obtain ⟨hwhite, hordinary⟩ := hc hquoted
  refine ⟨hquoted, List.forall_mem_cons.mpr ⟨hordinary, hspecial⟩, ?_, fun _ => ?_⟩
  · intro d hd
    rw [List.getLast?_append_of_ne_nil _ (List.cons_ne_nil _ _), List.getLast?_cons] at hd
    cases hcs : cs.getLast? with
    | none =>
      obtain rfl : c = d := by simpa [hcs] using hd
      exact hwhite
    | some e =>
      obtain rfl : e = d := by simpa [hcs] using hd
      exact hlast e hcs
  · rintro d ⟨⟩
    exact hwhite

end OnLine

/-- If the next line begins with a tab and a letter, the value has more of the letter. -/
def More (letter : Char) (tail from_ v : List Char) : Prop :=
  ∀ rest, tail = '\t' :: letter :: rest → from_.count letter < v.count letter

theorem More.of_count {ds : List Char} (h : More letter tail cs v)
    (hcount : ds.count letter ≤ cs.count letter) : More letter tail ds v :=
  fun rest hrest => lt_of_le_of_lt hcount (h rest hrest)

/-- Where the value of a line ends: on the line, or behind it if there is a backslash at its end. -/
theorem value_spec (hletter : Inert letter) (cs : List Char) :
    (∀ quoted kept blank entries, (kept = [] → blank = []) →
      Reader.read ⟨o, .value key quoted kept blank⟩ (cs ++ '\n' :: tail) = some entries →
      ∃ v later, entries = (key, some v) :: later ∧ (OnLine quoted kept blank cs v ∨
        cs.getLast? = some '\\' ∧ More letter tail (kept ++ cs) v)) ∧
    ∀ quoted kept entries,
      Reader.read ⟨o, .escape key quoted kept⟩ (cs ++ '\n' :: tail) = some entries →
      ∃ v later, entries = (key, some v) :: later ∧ (v.length ≤ kept.length + cs.length ∨
        (∀ c ∈ cs.getLast?, c = '\\') ∧ More letter tail (kept ++ cs) v) := by
  induction cs with
  | nil =>
    constructor
    · intro quoted kept blank entries hblank h
      obtain ⟨r', done, later, hstep, hread, rfl⟩ := read_eq_some h
      cases took_of_onValue hstep with
      | ends _ hquoted =>
        refine ⟨kept, later, rfl, Or.inl ⟨by simp, fun heq => ?_⟩⟩
        have hnil : blank = [] := by
          rw [← List.length_eq_zero_iff]
          simpa using heq
        simp [hquoted, hnil]
      | blank hc => cases hc
      | comment hc => cases hc
      | escape hc => cases hc
      | quote hc => cases hc
      | char hc => exact absurd rfl hc
    · intro quoted kept entries h
      obtain ⟨r', done, later, hstep, hread, rfl⟩ := read_eq_some h
      obtain ⟨ds, hescape, -, rfl, rfl⟩ := escape_step hstep
      obtain rfl : [] = ds := Option.some.inj hescape
      obtain ⟨v, more, rfl, -⟩ := (kept_part tail).1 _ _ _ _ hread
      refine ⟨v, more, rfl, Or.inr ⟨by simp, ?_⟩⟩
      rintro rest rfl
      obtain ⟨v', more', heq, hless⟩ := count_of_continued hletter hread
      cases heq
      exact hless
  | cons c cs ih =>
    constructor
    · intro quoted kept blank entries hblank h
      obtain ⟨r', done, later, hstep, hread, rfl⟩ := read_eq_some h
      have hshort : kept.length < kept.length + blank.length + (c :: cs).length := by
        rw [List.length_cons]
        omega
      cases took_of_onValue hstep with
      | ends => exact ⟨kept, later, rfl, Or.inl (.of_lt hshort)⟩
      | comment => exact ⟨kept, later, rfl, Or.inl (.of_lt hshort)⟩
      | blank hc hquoted =>
        subst hquoted
        have hpending : kept = [] → pending kept blank c = [] := fun hnil => if_pos hnil
        obtain ⟨v, more, rfl, hline | ⟨hlast, hless⟩⟩ := ih.1 _ _ _ _ hpending hread
        · exact ⟨v, more, rfl, Or.inl (hline.push_blank hc hblank)⟩
        · refine ⟨v, more, rfl, Or.inr ⟨getLast?_cons_of hlast, ?_⟩⟩
          refine hless.of_count ?_
          rw [List.count_append, hletter.count_cons _ _ (Or.inl hc), ← List.count_append]
      | escape hc =>
        subst hc
        obtain ⟨v, more, rfl, hle | ⟨hlast, hless⟩⟩ := ih.2 _ _ _ hread
        · refine ⟨v, more, rfl, Or.inl (.of_lt ?_)⟩
          rw [List.length_append] at hle
          rw [List.length_cons]
          omega
        · refine ⟨v, more, rfl, Or.inr ⟨?_, ?_⟩⟩
          · cases hcs : cs.getLast? with
            | none => rw [List.getLast?_cons, hcs, Option.getD_none]
            | some d => exact getLast?_cons_of (hcs.trans (congrArg some (hlast d hcs)))
          · refine hless.of_count ?_
            have hcount := hletter.count_cons '\\' cs (Or.inr rfl)
            simp only [List.count_append, hcount]
            omega
      | quote hc =>
        subst hc
        obtain ⟨v, more, rfl, hline | ⟨hlast, hless⟩⟩ := ih.1 _ _ _ _ (fun _ => rfl) hread
        · refine ⟨v, more, rfl, Or.inl (.of_lt ?_)⟩
          have hle := hline.length
          rw [List.length_append, List.length_nil] at hle
          rw [List.length_cons]
          omega
        · refine ⟨v, more, rfl, Or.inr ⟨getLast?_cons_of hlast, hless.of_count ?_⟩⟩
          have hcount := hletter.count_cons '"' cs (Or.inr rfl)
          simp only [List.count_append, hcount]
          omega
      | char hc hordinary =>
        obtain ⟨v, more, rfl, hline | ⟨hlast, hless⟩⟩ := ih.1 _ _ _ _ (by simp) hread
        · exact ⟨v, more, rfl, Or.inl (hline.push_char hordinary)⟩
        · refine ⟨v, more, rfl, Or.inr ⟨getLast?_cons_of hlast, ?_⟩⟩
          refine hless.of_count ?_
          simp only [List.count_append, List.count_cons, List.count_nil]
          omega
    · intro quoted kept entries h
      obtain ⟨r', done, later, hstep, hread, rfl⟩ := read_eq_some h
      obtain ⟨ds, hescape, hlength, rfl, rfl⟩ := escape_step hstep
      have hne : c ≠ letter := by
        rintro rfl
        rw [hletter.escape] at hescape
        cases hescape
      obtain ⟨v, more, rfl, hline | ⟨hlast, hless⟩⟩ := ih.1 _ _ _ _ (fun _ => rfl) hread
      · refine ⟨v, more, rfl, Or.inl ?_⟩
        have hle := hline.length
        rw [List.length_append, List.length_nil] at hle
        rw [List.length_cons]
        omega
      · refine ⟨v, more, rfl, Or.inr ⟨fun d hd => ?_, hless.of_count ?_⟩⟩
        · rw [getLast?_cons_of hlast] at hd
          exact (Option.some.inj hd).symm
        · simp only [List.count_append, List.count_cons_of_ne hne]
          omega

/-- A text that is read as it stands is plain, if it does not end in a backslash or the next line
    begins with a tab and a letter. -/
theorem plain_of_read (hletter : Inert letter)
    (hnext : cs.getLast? ≠ some '\\' ∨ ∃ rest, tail = '\t' :: letter :: rest)
    (h : Reader.read ⟨o, .value key false [] []⟩ (cs ++ '\n' :: tail) =
      some ((key, some cs) :: entries)) : Plain cs := by
  obtain ⟨v, later, heq, hline | ⟨hlast, hmore⟩⟩ :=
    (value_spec hletter cs).1 _ _ _ _ (fun _ => rfl) h
  · cases heq
    obtain ⟨-, hordinary, hlast, hhead⟩ := hline.plain (by simp)
    exact ⟨hordinary, hhead rfl, hlast⟩
  · cases heq
    rcases hnext with hne | ⟨rest, hrest⟩
    · exact absurd hlast hne
    · exact absurd (hmore rest hrest) (lt_irrefl _)

/-- A value without special characters and without blanks at its end. -/
theorem read_ordinary (hordinary : ∀ c ∈ cs, isSpecial c = false)
    (hhead : kept = [] → blank = [] ∧ ∀ c ∈ cs.head?, isWhite c = false)
    (hlast : ∀ c ∈ (blank ++ cs).getLast?, isWhite c = false)
    (hblank : ∀ c ∈ blank, isWhite c = true) :
    Reader.read ⟨o, .value key false kept blank⟩ (cs ++ '\n' :: tail) =
      (Reader.read ⟨o, .line⟩ tail).map ((key, some (kept ++ blank ++ cs)) :: ·) := by
  induction cs generalizing kept blank with
  | nil =>
    have hnil : blank = [] := by
      by_contra hne
      have hwhite := hblank _ (List.getLast_mem hne)
      rw [hlast _ (by rw [List.append_nil]; exact List.getLast?_eq_some_getLast hne)] at hwhite
      cases hwhite
    subst hnil
    have hstep : Reader.step ⟨o, .value key false kept []⟩ '\n' =
        some (⟨o, .line⟩, [(key, some kept)]) := rfl
    rw [List.nil_append, read_cons hstep, List.append_nil, List.append_nil]
    rfl
  | cons c cs ih =>
    obtain ⟨hc, hrest⟩ := List.forall_mem_cons.mp hordinary
    simp only [isSpecial, Bool.or_eq_false_iff, beq_eq_false_iff_ne] at hc
    obtain ⟨⟨⟨hnewline, hquote⟩, hslash⟩, hmark⟩ := hc
    by_cases hwhite : isWhite c = true
    · have hkept : kept ≠ [] := by
        intro hnil
        rw [(hhead hnil).2 c rfl] at hwhite
        cases hwhite
      have hstep : Reader.step ⟨o, .value key false kept blank⟩ c =
          some (⟨o, .value key false kept (blank ++ [c])⟩, []) := by
        simp [Reader.step, Reader.onValue, hnewline, hwhite, pending, hkept]
      rw [List.cons_append, read_on hstep, ih hrest (fun hnil => absurd hnil hkept)
        (by simpa using hlast) (by simpa [or_imp, forall_and] using ⟨hblank, hwhite⟩)]
      simp
    · have hstep : Reader.step ⟨o, .value key false kept blank⟩ c =
          some (⟨o, .value key false (kept ++ blank ++ [c]) []⟩, []) := by
        simp [Reader.step, Reader.onValue, hnewline, hwhite, hmark, hslash, hquote]
      have hlast' : ∀ d ∈ ([] ++ cs).getLast?, isWhite d = false := by
        intro d hd
        refine hlast d ?_
        rw [List.getLast?_append_of_ne_nil _ (List.cons_ne_nil _ _)]
        exact getLast?_cons_of hd
      rw [List.cons_append, read_on hstep, ih hrest (by simp) hlast' (by simp)]
      simp

/-- **A plain text is read as it stands.** -/
theorem read_plain (h : Plain cs) :
    Reader.read ⟨o, .value key false [] []⟩ (cs ++ '\n' :: tail) =
      (Reader.read ⟨o, .line⟩ tail).map ((key, some cs) :: ·) :=
  read_ordinary h.ordinary (fun _ => ⟨rfl, h.trimmed.1⟩) h.trimmed.2 (by simp)

end GitConfig
