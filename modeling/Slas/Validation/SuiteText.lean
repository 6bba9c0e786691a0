/-
  Slas.Validation.SuiteText

  INGEST: a suite as Markdown, or as the rows of a worksheet, to its items
  (`slas_orchestrator.validation.suite`).

  A Markdown suite is a table, or else a list of bullets; cells and bullets are cleaned of
  the cycle counts and settle times that are read out of them.
-/

import Slas.Lib.Dict
import Slas.Lib.Patterns
import Slas.Lib.Text
import Slas.Skills.Values
import Slas.Validation.Compiler

namespace Slas

namespace SuiteText

open Lines (splitlines)
open Patterns (Pattern afterLetters sameLetter search sub)
open Text (stripBy)

/-! ## Characters -/

/-- White space, and the characters that separate columns and parameters. -/
def isMark (c : Char) : Bool := Lines.isSpace c || c = '|' || c = ';' || c = ',' || c = '='

/-- `text.replace(" ", "_")` -/
def underscored (cs : List Char) : List Char := cs.map fun c => if c = ' ' then '_' else c

/-- The classes `\d` and `\w`, `str.lower`, and `int` and `float` of texts, where they give a
    number. -/
structure Unicode where
  isDigit : Char → Bool
  isWord : Char → Bool
  lower : List Char → List Char
  int : List Char → Option Nat
  float : List Char → Option FloatValue
  isDigit_mark : ∀ c, isDigit c = true → isMark c = false
  lower_ascii : ∀ cs, (∀ c ∈ cs, c.toNat < 128) → lower cs = cs.map Char.toLower
  /-- Only letters change. -/
  lower_mark : ∀ cs, ∀ c ∈ lower cs, isMark c = true → c ∈ cs
  lower_trimmed : ∀ cs, Text.Trimmed Lines.isSpace cs → Text.Trimmed Lines.isSpace (lower cs)
  lower_nil : ∀ cs, lower cs = [] → cs = []
  /-- What is in lower case stays as it is. -/
  lower_lower : ∀ cs, lower (underscored (lower cs)) = underscored (lower cs)
  float_nat : ∀ n ≤ 10000, float (Nat.toDigits 10 n) = some (.finite (.ofNat n))

theorem ascii_of_all {cs : List Char} (h : (cs.all fun c => decide (c.toNat < 128)) = true) :
    ∀ c ∈ cs, c.toNat < 128 :=
  fun c hc => of_decide_eq_true (List.all_eq_true.mp h c hc)

/-- `int` of a number with decimals: toward zero. -/
def truncate (d : Decimal) : Int := (if d.neg then -1 else 1) * (d.mant / 10 ^ d.scale : Nat)

variable (U : Unicode)

/-! ## Patterns -/

/-- A run of digits, and what follows it. -/
def digitsAt (cs : List Char) : Option (List Char × List Char) :=
  if cs.takeWhile U.isDigit = [] then none
  else some (cs.takeWhile U.isDigit, cs.dropWhile U.isDigit)

/-- `(?:cycles?|times)` -/
def cyclesWord (cs : List Char) : Option (List Char) :=
  match afterLetters "cycle".toList cs with
  | some (c :: rest) => some (if sameLetter 's' c then rest else c :: rest)
  | some [] => some []
  | none => afterLetters "times".toList cs

/-- `_CYCLES` -/
def cyclesAt : Pattern
  | _, [] => none
  | _, c :: cs =>
    if sameLetter 'x' c || c = '×' then digitsAt U (cs.dropWhile Lines.isSpace)
    else (digitsAt U (c :: cs)).bind fun found =>
      (cyclesWord (found.2.dropWhile Lines.isSpace)).map fun rest => (found.1, rest)

/-- `_SETTLE` -/
def settleAt : Pattern
  | _, cs => (afterLetters "settle".toList cs).bind fun rest =>
    (digitsAt U (rest.dropWhile Lines.isSpace)).bind fun found =>
      (afterLetters ['s'] (found.2.dropWhile Lines.isSpace)).map fun rest => (found.1, rest)

/-- `_APPROVED` -/
def approvedAt : Pattern
  | prev, cs =>
    if prev.any U.isWord then none
    else (afterLetters "approved".toList cs).bind fun rest =>
      if rest.head?.any U.isWord then none else some ([], rest)

/-- `\(\s*[,;]?\s*\)` -/
def bracketsAt : Pattern
  | _, '(' :: cs =>
    let inner := match cs.dropWhile Lines.isSpace with
      | ',' :: rest => rest
      | ';' :: rest => rest
      | rest => rest
    match inner.dropWhile Lines.isSpace with
    | ')' :: rest => some ([], rest)
    | _ => none
  | _, _ => none

/-- What a list item begins with, and what follows it. -/
def markerAt : List Char → Option (List Char)
  | [] => none
  | c :: cs =>
    if c = '-' ∨ c = '*' ∨ c = '+' then some cs
    else match digitsAt U (c :: cs) with
      | some (_, '.' :: rest) => some rest
      | some (_, ')' :: rest) => some rest
      | _ => none

/-- `_BULLET`: the text of a list item. -/
def bulletAt (line : List Char) : Option (List Char) :=
  (markerAt U (line.dropWhile Lines.isSpace)).bind fun rest =>
    let body := rest.dropWhile Lines.isSpace
    match rest.takeWhile Lines.isSpace with
    | [] => none
    | _ :: blanks =>
      if body ≠ [] then some (body.rdropWhile Lines.isSpace)
      -- nothing but white space: the last of it is the text
      else blanks.getLast?.map fun c => [c]

/-! ## Titles and parameters -/

inductive SuiteFailure where
  /-- `SuiteError` -/
  | refused (message : ThreePartMessage)
  /-- any other exception, with its message -/
  | raised (message : String)

/-- A text without its counts, its settle times and the brackets they leave empty. -/
def uncounted (text : List Char) : List Char :=
  sub bracketsAt [] (sub (settleAt U) [] (sub (cyclesAt U) [] text))

def isTrim (c : Char) : Bool := " ,;:-".toList.contains c

/-- `_clean_title` -/
def cleanTitle (text : List Char) : List Char :=
  let cleaned := stripBy isTrim (sub Patterns.spaces [' '] (uncounted U text))
  if cleaned = [] then Text.strip (uncounted U text) else cleaned

/-- The settle time that a text names. -/
def settleParams (text : List Char) : List (String × String) :=
  match search (settleAt U) text with
  | some digits => [("settle_s", String.ofList digits)]
  | none => []

/-- The cycles that a text names. -/
def cyclesInText (text : List Char) : Except SuiteFailure Nat :=
  match search (cyclesAt U) text with
  | none => .ok 1
  | some digits =>
    match U.int digits with
    | some n => .ok n
    | none => .error (.raised "Exceeds the limit (4300 digits) for integer string conversion")

/-- `re.split(r"[;,]\s*", text)` -/
def pieces (text : List Char) : List (List Char) :=
  match text.splitOnP fun c => c = ';' || c = ',' with
  | [] => []
  | piece :: rest => piece :: rest.map fun piece => piece.dropWhile Lines.isSpace

/-- The name of a parameter. -/
def keyOf (text : List Char) : List Char := underscored (U.lower (Text.strip text))

/-- One parameter, if the text is one. -/
def addPair (params : List (String × String)) (piece : List Char) : List (String × String) :=
  let (key, value) := Text.partition '=' piece
  if '=' ∈ piece ∧ Text.strip key ≠ [] then
    Dict.set (String.ofList (keyOf U key)) (String.ofList (Text.strip value)) params
  else params

/-! ## Items -/

/-- What a row or a bullet says, before it is an item. -/
structure Draft where
  title : List Char
  action : List Char
  params : List (String × String)
  cycles : Nat
  approved : Bool

def invalidItem : SuiteFailure := .raised "1 validation error for SuiteItem"

/-- The item, if it is a valid one. -/
def Draft.item (draft : Draft) (n : Nat) : Except SuiteFailure SuiteItem :=
  if h : 1 ≤ n ∧ draft.title ≠ [] ∧ draft.title.length ≤ 200 ∧ draft.action ≠ [] ∧
      1 ≤ draft.cycles then
    .ok { n, title := String.ofList draft.title, action := String.ofList draft.action
          params := draft.params, cycles := draft.cycles, approved := draft.approved
          n_pos := h.1, title_ne := by simpa using h.2.1, title_le := by simpa using h.2.2.1
          action_ne := by simpa using h.2.2.2.1, cycles_pos := h.2.2.2.2 }
  else .error invalidItem

/-- Where the columns of a table are. -/
structure Columns where
  step : Option Nat
  action : Option Nat
  params : Option Nat
  cycles : Option Nat
  approved : Option Nat
  deriving DecidableEq

/-- The first of the names that the header has. -/
def column (header : List (List Char)) (names : List String) : Option Nat :=
  names.findSome? fun name => header.idxOf? name.toList

def columns (header : List (List Char)) : Columns where
  step := column header ["step", "title", "test", "item", "name"]
  action := column header ["action", "primitive", "do"]
  params := column header ["parameters", "params", "args", "settings"]
  cycles := column header ["cycles", "repeat", "count"]
  approved := column header ["approved", "destructive approved", "approval", "ok to run"]

def APPROVED_WORDS : List String := ["yes", "y", "true", "approved", "x", "✓"]

/-- The cycles of a row: its cell, or else what its text names. -/
def cyclesOfCell (cell : List Char) (inText : Nat) : Except SuiteFailure Int :=
  if Text.strip cell = [] then .ok inText
  else match U.float cell with
    | some (.finite d) => .ok (truncate d)
    | some (.infinite _) => .error (.raised "cannot convert float infinity to integer")
    | _ => .ok inText

/-- The title of a row. -/
def titleOf (title action : List Char) : List Char :=
  let cleaned := (cleanTitle U title).take 200
  if cleaned = [] then (Text.strip action).take 200 else cleaned

/-- The cell of a column, if there is the column. -/
def cellAt (cells : List (List Char)) (col : Option Nat) (default : List Char) : List Char :=
  match col with
  | some i => cells.getD i []
  | none => default

def isApproved (cell paramsText : List Char) : Bool :=
  APPROVED_WORDS.contains (String.ofList (U.lower (Text.strip cell))) ||
    (search (approvedAt U) paramsText).isSome

/-- One row of a table; a row without title and action is left out. -/
def draftOfRow (cols : Columns) (width : Nat) (row : List (List Char)) :
    Except SuiteFailure (Option Draft) :=
  let cells := row ++ List.replicate (width - row.length) []
  let title := cells.getD (cols.step.getD (cols.action.getD 0)) []
  let action := cellAt cells cols.action title
  let paramsText := cellAt cells cols.params []
  let text := title ++ ' ' :: action ++ ' ' :: paramsText
  if Text.strip title = [] ∧ Text.strip action = [] then .ok none
  else do
    let inText ← cyclesInText U text
    -- without a column of cycles the cell is blank
    let cycles ← cyclesOfCell U (cellAt cells cols.cycles []) inText
    return some {
      title := titleOf U title action
      action := Text.strip (if action = [] then title else action)
      params := (pieces paramsText).foldl (addPair U) (settleParams U text)
      cycles := (max 1 (min cycles 10000)).toNat
      approved := isApproved U (cellAt cells cols.approved []) paramsText }

/-- The items of the rows, from a number on. -/
def itemsOfRows (cols : Columns) (width : Nat) :
    Nat → List (List (List Char)) → Except SuiteFailure (List SuiteItem)
  | _, [] => .ok []
  | n, row :: rows => do
    match ← draftOfRow U cols width row with
    | none => itemsOfRows cols width n rows
    | some draft =>
      let item ← draft.item n
      let rest ← itemsOfRows cols width (n + 1) rows
      return item :: rest

def noStepColumn (source : String) : ThreePartMessage where
  whatHappened := source ++ " has a table without a Step or Action column."
  likelyCause := "The suite table needs at least a Step column; Action, Parameters, Cycles and " ++
    "Approved are optional."
  whatToDo := "Add the header row and try again."

/-- `items_from_rows` -/
def itemsFromRows (rows : List (List (List Char))) (source : String) :
    Except SuiteFailure (List SuiteItem) :=
  match rows with
  | [] => .ok []
  | first :: rest =>
    let header := first.map fun cell => U.lower (Text.strip cell)
    let cols := columns header
    if cols.step = none ∧ cols.action = none then .error (.refused (noStepColumn source))
    else itemsOfRows U cols header.length 1 rest

/-! ## Markdown -/

/-- `line.strip().startswith("|")` -/
def isTableLine (line : List Char) : Bool := (Text.strip line).head? == some '|'

/-- The cells of a line of a table. -/
def cellsOf (line : List Char) : List (List Char) :=
  ((stripBy (· == '|') (Text.strip line)).splitOn '|').map Text.strip

/-- The line under a header. -/
def isRule (row : List (List Char)) : Bool := row.all fun cell => cell.all "-: ".toList.contains

/-- `_rows_from_markdown_table` -/
def rowsFromMarkdownTable (lines : List (List Char)) : List (List (List Char)) :=
  ((lines.filter isTableLine).map cellsOf).filter fun row => row ≠ [] ∧ isRule row = false

/-- One bullet. -/
def draftOfBullet (raw : List Char) : Except SuiteFailure Draft := do
  let title := cleanTitle U (sub (approvedAt U) [] raw)
  let cycles ← cyclesInText U raw
  return { title := title.take 200, action := title, params := settleParams U raw, cycles
           approved := (search (approvedAt U) raw).isSome }

/-- The items of the bullets, from a number on. -/
def itemsOfBullets : Nat → List (List Char) → Except SuiteFailure (List SuiteItem)
  | _, [] => .ok []
  | n, line :: lines =>
    match bulletAt U line with
    | none => itemsOfBullets n lines
    | some raw => do
      let draft ← draftOfBullet U raw
      let item ← draft.item n
      let rest ← itemsOfBullets (n + 1) lines
      return item :: rest

def emptySuite (source : String) : ThreePartMessage where
  whatHappened := source ++ " is empty."
  likelyCause := "A suite needs a title and at least one item."
  whatToDo := "Add the items and upload again."

def noItems (source : String) : ThreePartMessage where
  whatHappened := source ++ " has no items."
  likelyCause := "Items are table rows under a Step/Action header, or bullets such as " ++
    "`- DC cycle x25, settle 60 s`."
  whatToDo := "Add the items and upload again."

def noSheetItems (source : String) : ThreePartMessage where
  whatHappened := source ++ " has no items."
  likelyCause := "The first sheet needs a header row (Step, Action, Parameters, Cycles, " ++
    "Approved) and one row per item."
  whatToDo := "Add the rows and upload again."

/-- The suite, if it is a valid one. -/
def makeSuite (title : List Char) (items : List SuiteItem) : Except SuiteFailure Suite :=
  if h : title ≠ [] ∧ items ≠ [] ∧ items.length ≤ 200 then
    .ok { title := String.ofList title, items, title_ne := by simpa using h.1
          nonempty := h.2.1, capped := h.2.2 }
  else .error (.raised "1 validation error for Suite")

/-- The heading of a document, or else the name of its file. -/
def headingOf (lines : List (List Char)) (source : String) : List Char :=
  match lines.find? fun line => "# ".toList.isPrefixOf line with
  | some line => Text.strip (line.drop 2)
  | none => (Text.stem source).toList.map fun c => if c = '-' then ' ' else c

/-- The items of a document: of its table, or else of its bullets. -/
def itemsOfLines (lines : List (List Char)) (source : String) :
    Except SuiteFailure (List SuiteItem) := do
  let tabled ← if lines.filter isTableLine = [] then pure []
    else itemsFromRows U (rowsFromMarkdownTable (lines.filter isTableLine)) source
  if tabled = [] then itemsOfBullets U 1 lines else return tabled

/-- `parse_suite_md` -/
def parseSuiteMd (text source : String) : Except SuiteFailure Suite :=
  if Text.strip text.toList = [] then .error (.refused (emptySuite source))
  else do
    let lines := splitlines text.toList
    let items ← itemsOfLines U lines source
    if items = [] then .error (.refused (noItems source))
    else makeSuite (headingOf lines source) (items.take 200)

/-- `parse_suite_xlsx`, over the rows of the first worksheet. -/
def parseSuiteRows (rows : List (List String)) (source : String) : Except SuiteFailure Suite := do
  let items ← itemsFromRows U (rows.map fun row => row.map String.toList) source
  if items = [] then .error (.refused (noSheetItems source))
  else makeSuite ((Text.stem source).toList.map fun c => if c = '-' ∨ c = '_' then ' ' else c) items

end SuiteText

end Slas
