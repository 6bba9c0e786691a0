/-
  Slas.Skills.Templates

  `{{ name }}` binding and the small condition language (`slas_skills.templates`).

  Values are looked up through a function, so that one definition serves a context
  and two contexts behind one another.  A condition is read as one comparison, at
  the first comparison sign of the rendered text, or as one operand.
-/

import Slas.Kernel.World
import Slas.Lib.Placeholders
import Slas.Skills.Values

namespace Slas

open Placeholders (Reader Piece scan flatten refs)

/-- `dict`s of names and values. -/
abbrev Bindings := List (String × Json)

namespace Skills

variable (P : Python)

/-! ## Placeholders -/

/-- `[A-Za-z_]` -/
def isNameStart (c : Char) : Bool := c.isAlpha || c == '_'

/-- `[\w.-]` -/
def isNameChar (c : Char) : Bool := P.isWord c || c == '.' || c == '-'

/-- `PLACEHOLDER`, at the beginning of a text: its text and the name in it. -/
def readPlaceholder : List Char → Option (List Char × String)
  | '\x7b' :: '\x7b' :: rest =>
    let body := rest.dropWhile isSpace
    let name := body.takeWhile (isNameChar P)
    let after := body.dropWhile (isNameChar P)
    match name.head?, after.dropWhile isSpace with
    | some c, '\x7d' :: '\x7d' :: _ =>
      if isNameStart c then
        some ('\x7b' :: '\x7b' :: rest.takeWhile isSpace ++ name ++ after.takeWhile isSpace ++
          ['\x7d', '\x7d'], String.ofList name)
      else none
    | _, _ => none
  | _ => none

variable {P}

theorem isNameStart_ascii {c : Char} (h : isNameStart c = true) :
    c.toNat < 128 ∧ (c.isAlphanum || c == '_') = true := by
  simp only [isNameStart, Bool.or_eq_true, beq_iff_eq] at h
  rcases h with h | rfl
  · have hrange := Python.isAlpha_range h
    exact ⟨by omega, by simp [Char.isAlphanum, h]⟩
  · decide

theorem isNameChar_of_isNameStart {c : Char} (h : isNameStart c = true) :
    isNameChar P c = true := by
  obtain ⟨hascii, hword⟩ := isNameStart_ascii h
  simp [isNameChar, P.isWord_ascii c hascii, hword]

theorem isNameChar_space {c : Char} (h : isSpace c = true) : isNameChar P c = false := by
  have hdot : c ≠ '.' := fun hc => by subst hc; revert h; decide
  have hdash : c ≠ '-' := fun hc => by subst hc; revert h; decide
  simp [isNameChar, P.isWord_space c h, hdot, hdash]

theorem isNameChar_brace : isNameChar P '\x7b' = false ∧ isNameChar P '\x7d' = false := by
  have hopen := P.isWord_ascii '\x7b' (by decide)
  have hclose := P.isWord_ascii '\x7d' (by decide)
  constructor
  · rw [isNameChar, hopen]
    decide
  · rw [isNameChar, hclose]
    decide

theorem isSpace_of_isNameChar {c : Char} (h : isNameChar P c = true) : isSpace c = false := by
  cases hs : isSpace c with
  | false => rfl
  | true => simp [isNameChar_space hs] at h

/-- The texts a placeholder may have. -/
structure IsPlaceholder (P : Python) (raw : List Char) (name : String) : Prop where
  exists_parts : ∃ lead c body trail, (∀ x ∈ lead, isSpace x = true) ∧ isNameStart c = true ∧
    (∀ x ∈ body, isNameChar P x = true) ∧ (∀ x ∈ trail, isSpace x = true) ∧
    name = String.ofList (c :: body) ∧
    raw = '\x7b' :: '\x7b' :: (lead ++ (c :: body) ++ trail ++ ['\x7d', '\x7d'])

/-- What begins a text is read as a placeholder exactly when it is one. -/
theorem readPlaceholder_iff {cs raw : List Char} {name : String} :
    readPlaceholder P cs = some (raw, name) ↔ IsPlaceholder P raw name ∧ raw <+: cs := by
  constructor
  · intro h
    unfold readPlaceholder at h
    split at h
    · rename_i rest
      simp only at h
      split at h
      · rename_i c tail hhead hafter
        split at h
        · rename_i hstart
          obtain ⟨hraw, hname⟩ := Prod.mk.inj (Option.some.inj h)
          obtain ⟨body, hbody⟩ : ∃ body,
              (rest.dropWhile isSpace).takeWhile (isNameChar P) = c :: body := by
            cases hw : (rest.dropWhile isSpace).takeWhile (isNameChar P) with
            | nil => simp [hw] at hhead
            | cons d body => exact ⟨body, by simpa [hw] using hhead⟩
          rw [hbody] at hraw hname
          refine ⟨⟨rest.takeWhile isSpace, c, body,
            ((rest.dropWhile isSpace).dropWhile (isNameChar P)).takeWhile isSpace,
            fun x hx => List.mem_takeWhile_imp hx, hstart, fun x hx => ?_,
            fun x hx => List.mem_takeWhile_imp hx, hname.symm, hraw.symm.trans (by simp)⟩, ?_⟩
          · have hmem : x ∈ (rest.dropWhile isSpace).takeWhile (isNameChar P) := by
              rw [hbody]
              exact List.mem_cons_of_mem _ hx
            exact List.mem_takeWhile_imp hmem
          · -- put the parts of the text together again
            rw [← hraw]
            refine ⟨tail, ?_⟩
            have h₁ := List.takeWhile_append_dropWhile (p := isSpace) (l := rest)
            have h₂ := List.takeWhile_append_dropWhile (p := isNameChar P)
              (l := rest.dropWhile isSpace)
            have h₃ := List.takeWhile_append_dropWhile (p := isSpace)
              (l := (rest.dropWhile isSpace).dropWhile (isNameChar P))
            rw [hafter] at h₃
            rw [hbody, ← h₃] at h₂
            conv_rhs => rw [← h₁, ← h₂]
            simp
        · cases h
      · cases h
    · cases h
  · rintro ⟨⟨lead, c, body, trail, hlead, hstart, hbody, htrail, rfl, rfl⟩, tail, rfl⟩
    have hc : isSpace c = false := isSpace_of_isNameChar (isNameChar_of_isNameStart (P := P) hstart)
    have hname : ∀ x ∈ c :: body, isNameChar P x = true := by
      intro x hx
      rcases List.mem_cons.mp hx with rfl | hx
      · exact isNameChar_of_isNameStart hstart
      · exact hbody x hx
    -- after the name stands a space or the closing brace
    have hstop : ∀ ds, (trail ++ '\x7d' :: ds).takeWhile (isNameChar P) = [] ∧
        (trail ++ '\x7d' :: ds).dropWhile (isNameChar P) = trail ++ '\x7d' :: ds := by
      intro ds
      cases trail with
      | nil => simp [isNameChar_brace.2]
      | cons x trail => simp [isNameChar_space (P := P) (htrail x List.mem_cons_self)]
    have hclose : isSpace '\x7d' = false := by decide
    have hdropLead : ∀ ds, (lead ++ ds).dropWhile isSpace = ds.dropWhile isSpace :=
      fun _ => List.dropWhile_append_of_pos hlead
    have htakeLead : ∀ ds, (lead ++ ds).takeWhile isSpace = lead ++ ds.takeWhile isSpace :=
      fun _ => List.takeWhile_append_of_pos hlead
    have hdropName : ∀ ds, (c :: (body ++ ds)).dropWhile (isNameChar P) =
        ds.dropWhile (isNameChar P) := fun _ => List.dropWhile_append_of_pos hname
    have htakeName : ∀ ds, (c :: (body ++ ds)).takeWhile (isNameChar P) =
        c :: (body ++ ds.takeWhile (isNameChar P)) := fun _ => List.takeWhile_append_of_pos hname
    have hdropTrail : ∀ ds, (trail ++ ds).dropWhile isSpace = ds.dropWhile isSpace :=
      fun _ => List.dropWhile_append_of_pos htrail
    have htakeTrail : ∀ ds, (trail ++ ds).takeWhile isSpace = trail ++ ds.takeWhile isSpace :=
      fun _ => List.takeWhile_append_of_pos htrail
    simp [readPlaceholder, hdropLead, htakeLead, htakeName, hdropName, hdropTrail, htakeTrail,
      hstop, hc, hclose, hstart]

variable (P)

def placeholder : Reader String where
  read := readPlaceholder P
  nonempty h := by
    obtain ⟨⟨_, _, _, _, _, _, _, _, _, rfl⟩, -⟩ := readPlaceholder_iff.mp h
    simp
  starts h := (readPlaceholder_iff.mp h).2
  decides h hbegins := readPlaceholder_iff.mpr ⟨(readPlaceholder_iff.mp h).1, hbegins⟩

/-! ## Rendering -/

variable {P}

def pathParts (path : String) : List String := (path.toList.splitOn '.').map String.ofList

def lookupParts : List String → Bindings → Option Json
  | [], _ => none
  | [part], context => context.lookup part
  | part :: parts, context =>
    match context.lookup part with
    | some (.obj inner) => lookupParts parts inner
    | _ => none

/-- `_lookup` -/
def find (context : Bindings) (path : String) : Option Json :=
  match pathParts path with
  | "inputs" :: part :: parts => lookupParts (part :: parts) context
  | parts => lookupParts parts context

/-- `name.startswith(_LATE_PREFIXES)` -/
def isLate (name : String) : Bool := "steps.".toList.isPrefixOf name.toList

/-- `_unknown` -/
def unknownName (name source : String) : ThreePartMessage where
  whatHappened := source ++ " refers to \x7b\x7b " ++ name ++
    " \x7d\x7d, which is not an input or a variable."
  likelyCause := "Inputs are declared under `inputs:`; variables come from `set` steps; " ++
    "step outputs are written `steps.<id>.<field>`."
  whatToDo := "Declare the input, or fix the name."

variable (P)

/-- `references` -/
def references (text : String) : List String := refs (scan (placeholder P) text.toList)

/-- `PLACEHOLDER.fullmatch(text.strip())` -/
def whole (text : String) : Option String :=
  match readPlaceholder P (stripChars text.toList) with
  | some (raw, name) => if raw = stripChars text.toList then some name else none
  | none => none

/-- What `substitute` puts in the place of a placeholder. -/
def fill (look : String → Option Json) (source : String) (raw : List Char) (name : String) :
    Except ThreePartMessage (List Char) :=
  match look name with
  | some value => .ok (P.str value).toList
  | none => if isLate name then .ok raw else .error (unknownName name source)

/-- `render`, with the values looked up by a function. -/
def render (look : String → Option Json) (source text : String) : Except ThreePartMessage Json :=
  match whole P text with
  | some name =>
    match look name with
    | some value => .ok value
    | none => if isLate name then .ok (.str text) else .error (unknownName name source)
  | none =>
    (Placeholders.subst (fill P look source) (scan (placeholder P) text.toList)).map fun cs =>
      .str (String.ofList cs)

mutual

/-- `render_value` -/
def renderValue (look : String → Option Json) (source : String) :
    Json → Except ThreePartMessage Json
  | .str text => render P look source text
  | .arr xs => (renderItems look source xs).map .arr
  | .obj kvs => (renderFields look source kvs).map .obj
  | value => .ok value

def renderItems (look : String → Option Json) (source : String) :
    List Json → Except ThreePartMessage (List Json)
  | [] => .ok []
  | x :: xs =>
    match renderValue look source x with
    | .error e => .error e
    | .ok y => (renderItems look source xs).map (y :: ·)

def renderFields (look : String → Option Json) (source : String) :
    Bindings → Except ThreePartMessage Bindings
  | [] => .ok []
  | kv :: kvs =>
    match renderField look source kv with
    | .error e => .error e
    | .ok kv' => (renderFields look source kvs).map (kv' :: ·)

def renderField (look : String → Option Json) (source : String) :
    String × Json → Except ThreePartMessage (String × Json)
  | (key, value) => (renderValue look source value).map (key, ·)

end

/-- `has_late_reference` of a text. -/
def hasLateReference (text : String) : Bool := (references P text).any isLate

/-! ## Conditions -/

/-- A side of a comparison. -/
inductive Operand where
  | text (cs : List Char)
  | bool (b : Bool)
  | none
  | number (x : FloatValue)
  deriving DecidableEq

/-- `_operand` -/
def operand (text : List Char) : Operand :=
  let cs := stripChars text
  if 2 ≤ cs.length ∧ cs.head? = cs.getLast? ∧ (cs.head? = some '\x22' ∨ cs.head? = some '\x27') then
    .text cs.tail.dropLast
  else if lowerIs "true" cs then .bool true
  else if lowerIs "false" cs then .bool false
  else if lowerIs "none" cs || lowerIs "null" cs then .none
  else
    match P.number (String.ofList cs) with
    | some x => .number x
    | none => .text cs

variable {P}

/-- `truthy` of a text. -/
def truthyText (text : List Char) : Bool :=
  let cs := stripChars text
  !(cs.isEmpty || lowerIs "false" cs || lowerIs "0" cs || lowerIs "none" cs || lowerIs "null" cs ||
    lowerIs "no" cs)

/-- `truthy` -/
def truthy : Json → Bool
  | .str s => truthyText s.toList
  | value => Json.truth value

namespace Operand

/-- `truthy` -/
def truthy : Operand → Bool
  | .text cs => truthyText cs
  | .bool b => b
  | .none => false
  | .number x => x.truth

/-- A boolean is a number. -/
def number? : Operand → Option FloatValue
  | .number x => some x
  | .bool b => some (.finite (.ofNat b.toNat))
  | _ => .none

/-- `==` -/
def eq : Operand → Operand → Bool
  | .text a, .text b => a == b
  | .none, .none => true
  | a, b =>
    match a.number?, b.number? with
    | some x, some y => x.eq y
    | _, _ => false

end Operand

/-- The comparison signs. -/
inductive Sign where
  | eq
  | ne
  | le
  | ge
  | lt
  | gt
  deriving DecidableEq

/-- A comparison, if the operands can be compared so. -/
def Sign.compare (sign : Sign) (a b : Operand) : Option Bool :=
  match sign with
  | .eq => some (a.eq b)
  | .ne => some (!a.eq b)
  | sign =>
    match a, b with
    | .text x, .text y =>
      match sign with
      | .lt => some (decide (x < y))
      | .le => some (!decide (y < x))
      | .gt => some (decide (y < x))
      | _ => some (!decide (x < y))
    | a, b =>
      match a.number?, b.number? with
      | some x, some y =>
        match sign with
        | .lt => some (y.gt x)
        | .le => some (x.le y)
        | .gt => some (x.gt y)
        | _ => some (y.le x)
      | _, _ => none

/-- A comparison sign at the beginning of a text, and what follows it. -/
def readSign : List Char → Option (Sign × List Char)
  | '=' :: '=' :: cs => some (.eq, cs)
  | '!' :: '=' :: cs => some (.ne, cs)
  | '<' :: '=' :: cs => some (.le, cs)
  | '>' :: '=' :: cs => some (.ge, cs)
  | '<' :: cs => some (.lt, cs)
  | '>' :: cs => some (.gt, cs)
  | _ => none

/-- A comparison sign after white space, and a rest of one line after it. -/
def signHere (cs : List Char) : Option (Sign × List Char) :=
  match readSign (cs.dropWhile isSpace) with
  | some (sign, rest) =>
    if '\n' ∈ rest.dropWhile isSpace then none else some (sign, rest.dropWhile isSpace)
  | none => none

/-- `_COMPARISON.match`: the shortest left side in one line that a sign follows. -/
def readComparison (left : List Char) : List Char → Option (List Char × Sign × List Char)
  | [] => none
  | c :: cs =>
    match signHere (c :: cs) with
    | some (sign, right) => some (left, sign, right)
    | none => if c = '\n' then none else readComparison (left ++ [c]) cs

theorem readComparison_nil (left : List Char) : readComparison left [] = none := rfl

attribute [local irreducible] signHere in
theorem readComparison_cons (left : List Char) (c : Char) (cs : List Char) :
    readComparison left (c :: cs) =
      match signHere (c :: cs) with
      | some (sign, right) => some (left, sign, right)
      | none => if c = '\n' then none else readComparison (left ++ [c]) cs := rfl

def cannotOrder (source : String) (rendered : List Char) : ThreePartMessage where
  whatHappened := source ++ " compares values that cannot be ordered: " ++
    String.ofList rendered ++ "."
  likelyCause := "Ordering comparisons need numbers on both sides."
  whatToDo := "Use == or != for text, or make both sides numbers."

variable (P)

/-- What a rendered condition says. -/
def evaluateText (source : String) (rendered : List Char) : Except ThreePartMessage Bool :=
  match readComparison [] (stripChars rendered) with
  | none => .ok (operand P rendered).truthy
  | some (left, sign, right) =>
    match sign.compare (operand P left) (operand P right) with
    | some b => .ok b
    | none => .error (cannotOrder source (stripChars rendered))

/-- `evaluate` -/
def evaluate (look : String → Option Json) (source condition : String) :
    Except ThreePartMessage Bool :=
  match render P look source condition with
  | .error e => .error e
  | .ok (.str rendered) => evaluateText P source rendered.toList
  | .ok value => .ok (truthy value)

end Skills

end Slas
