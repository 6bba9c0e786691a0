/-
  Slas.Validation.SuiteView

  A suite as the wizard shows it, and the Markdown that a confirmed suite goes back in
  (`suite_view` and `suite_to_markdown` of `slas_orchestrator.service.views_validation`).

  A line of the table that is read back has the cells it was written with, as long as
  none of them breaks the line (`cellsOf_rowLine`).
-/

import Slas.Validation.SuiteText

namespace Slas

namespace SuiteText

open Lines (splitlines Unbroken)
open Text (stripBy Trimmed)

/-! ## Views -/

structure SuiteItemView where
  n : Nat
  title : String
  action : String
  cycles : Nat
  destructive : Bool
  sentence : String
  approved : Bool
  params : List (String × String)

structure SuiteView where
  title : String
  items : List SuiteItemView
  sentence : String
  problem : Option String

/-- `SuiteItem.sentence` -/
def itemSentence (item : SuiteItem) : String :=
  let params := ", ".intercalate (item.params.map fun p => p.1 ++ " " ++ p.2)
  toString item.n ++ ". " ++ item.title ++
    (if 1 < item.cycles then " ×" ++ toString item.cycles else "") ++
    (if params = "" then "" else " (" ++ params ++ ")")

/-- `Suite.sentence` -/
def suiteSentence (suite : Suite) : String :=
  suite.title ++ ": " ++ toString suite.items.length ++ " items, " ++
    toString (suite.items.map (·.cycles)).sum ++ " cycles in total."

variable (B : Builtins)

def itemIsDestructive (item : SuiteItem) : Except String Bool :=
  (mapAction B item).map fun compiled =>
    (compiled.bind fun c => (primitive? c.primitive).bind fun spec =>
      approvalKind B.str spec c.args).isSome

def itemView (item : SuiteItem) : Except String SuiteItemView :=
  (itemIsDestructive B item).map fun destructive =>
    { n := item.n, title := item.title, action := item.action, cycles := item.cycles, destructive
      sentence := itemSentence item, approved := item.approved, params := item.params }

/-- `suite_view` -/
def suiteView (suite : Suite) : Except String SuiteView :=
  (suite.items.mapM (itemView B)).map fun items =>
    { title := suite.title, items, sentence := suiteSentence suite, problem := none }

/-! ## Markdown -/

/-- `_cell` -/
def cell (text : String) : List Char :=
  Text.strip (text.toList.map fun c => if c = '|' then '/' else if c = '\n' then ' ' else c)

/-- The parameters of an item in their cell. -/
def paramsCell (params : List (String × String)) : List Char :=
  "; ".toList.intercalate (params.map fun p => p.1.toList ++ '=' :: cell p.2)

/-- The cells between bars. -/
def rowLine (cells : List (List Char)) : List Char :=
  "| ".toList ++ " | ".toList.intercalate cells ++ " |".toList

/-- The cells of an item. -/
def itemCells (item : SuiteItemView) : List (List Char) :=
  [cell item.title, cell item.action, paramsCell item.params, Nat.toDigits 10 item.cycles,
    if item.approved then "yes".toList else []]

def headerLine : List Char := "| Step | Action | Parameters | Cycles | Approved |".toList

def ruleLine : List Char := "|---|---|---|---|---|".toList

/-- The lines of a document with a heading and the rows of a table. -/
def linesOf (title : String) (rows : List (List (List Char))) : List (List Char) :=
  ("# ".toList ++ cell title) :: [] :: headerLine :: ruleLine :: rows.map rowLine

/-- `suite_to_markdown` -/
def suiteToMarkdown (view : SuiteView) : String :=
  String.ofList (['\n'].intercalate (linesOf view.title (view.items.map itemCells)) ++ ['\n'])

/-! ## Rows that are read back -/

variable {cells : List (List Char)} {cs : List Char} {c : Char}

/-- What stands between the outer bars. -/
def inner (cells : List (List Char)) : List Char := ' ' :: " | ".toList.intercalate cells ++ [' ']

theorem rowLine_eq (cells : List (List Char)) : rowLine cells = '|' :: inner cells ++ ['|'] := by
  simp [rowLine, inner]

theorem strip_rowLine (cells : List (List Char)) : Text.strip (rowLine cells) = rowLine cells := by
  apply Text.stripBy_of_trimmed
  rw [rowLine_eq]
  constructor
  · intro c hc
    rw [List.cons_append, List.head?_cons, Option.mem_def, Option.some.injEq] at hc
    rw [← hc]
    decide
  · intro c hc
    rw [List.getLast?_concat, Option.mem_def, Option.some.injEq] at hc
    rw [← hc]
    decide

theorem stripBars_rowLine (cells : List (List Char)) :
    stripBy (· == '|') (rowLine cells) = inner cells := by
  rw [rowLine_eq, Text.stripBy_concat rfl, Text.stripBy_cons rfl]
  refine Text.stripBy_of_trimmed ⟨fun c hc => ?_, fun c hc => ?_⟩
  · rw [inner, List.cons_append, List.head?_cons, Option.mem_def, Option.some.injEq] at hc
    rw [← hc]
    decide
  · rw [inner, List.getLast?_concat, Option.mem_def, Option.some.injEq] at hc
    rw [← hc]
    decide

theorem isTableLine_rowLine (cells : List (List Char)) : isTableLine (rowLine cells) = true := by
  rw [isTableLine, strip_rowLine, rowLine_eq]
  rfl

theorem inner_cons (cs : List Char) (h : cells ≠ []) :
    inner (cs :: cells) = (' ' :: cs ++ [' ']) ++ '|' :: inner cells := by
  obtain ⟨d, ds, rfl⟩ := List.exists_cons_of_ne_nil h
  simp [inner, List.intercalate]

theorem splitOn_inner (h : cells ≠ []) :
    ((inner cells).splitOn '|').map Text.strip =
      cells.flatMap fun cs => (cs.splitOn '|').map Text.strip := by
  induction cells with
  | nil => exact absurd rfl h
  | cons cs cells ih =>
    cases cells with
    | nil =>
      have hone : inner [cs] = ' ' :: cs ++ [' '] := by simp [inner, List.intercalate]
      rw [hone, Text.strip_splitOn_padded (by decide)]
      simp
    | cons d ds =>
      rw [inner_cons cs (by simp), List.splitOn_append_cons_self, List.map_append,
        ih (by simp), Text.strip_splitOn_padded (by decide)]
      rfl

/-- A row has the cells that it was written with; a bar in a cell makes two of it. -/
theorem cellsOf_rowLine (h : cells ≠ []) :
    cellsOf (rowLine cells) = cells.flatMap fun cs => (cs.splitOn '|').map Text.strip := by
  rw [cellsOf, strip_rowLine, stripBars_rowLine, splitOn_inner h]

theorem map_strip_splitOn (h : '|' ∉ cs) : (cs.splitOn '|').map Text.strip = [Text.strip cs] := by
  rw [List.splitOn_eq_singleton h]
  rfl

theorem not_isMark_of_isDigit (h : c.isDigit = true) : isMark c = false := by
  have hrange : 48 ≤ c.toNat ∧ c.toNat ≤ 57 := by
    have hnat : c.toNat = c.val.toNat := rfl
    have h0 : '0'.val.toNat = 48 := rfl
    have h9 : '9'.val.toNat = 57 := rfl
    simp only [Char.isDigit, Bool.and_eq_true, decide_eq_true_eq, ge_iff_le,
      UInt32.le_iff_toNat_le] at h
    omega
  have hne : ∀ d : Char, (d.toNat < 48 ∨ 57 < d.toNat) → c ≠ d := by
    rintro d hd rfl
    omega
  have hspace : Lines.isSpace c = false := by
    simp only [Lines.isSpace, Bool.or_eq_false_iff, Bool.and_eq_false_iff, decide_eq_false_iff_not]
    omega
  simp [isMark, hspace, hne '|' (by decide), hne ';' (by decide), hne ',' (by decide),
    hne '=' (by decide)]

theorem digits_not_mark (n : Nat) : ∀ c ∈ Nat.toDigits 10 n, isMark c = false :=
  fun _ hc => not_isMark_of_isDigit (Nat.isDigit_of_mem_toDigits (by decide) (by decide) hc)

theorem strip_digits (n : Nat) : Text.strip (Nat.toDigits 10 n) = Nat.toDigits 10 n := by
  refine Text.stripBy_of_trimmed (Text.trimmed_of_forall fun c hc => ?_)
  have hmark := digits_not_mark n c hc
  simp only [isMark, Bool.or_eq_false_iff] at hmark
  exact hmark.1.1.1.1

theorem not_bar_of_not_mark (h : ∀ c ∈ cs, isMark c = false) : '|' ∉ cs := fun hin =>
  absurd (h _ hin) (by decide)

/-! ## The table of an item -/

theorem mem_shownCell {s : String} (h : c ∈ cell s) : c = '/' ∨ c = ' ' ∨ (c ∈ s.toList ∧ c ≠ '|') := by
  obtain ⟨d, hd, heq⟩ := List.mem_map.mp (Text.mem_of_mem_stripBy h)
  split_ifs at heq with hbar hnewline
  · exact Or.inl heq.symm
  · exact Or.inr (Or.inl heq.symm)
  · exact Or.inr (Or.inr (heq ▸ ⟨hd, hbar⟩))

theorem not_bar_cell (s : String) : '|' ∉ cell s := by
  intro h
  rcases mem_shownCell h with heq | heq | ⟨-, hne⟩
  · exact absurd heq (by decide)
  · exact absurd heq (by decide)
  · exact hne rfl

theorem strip_cell (s : String) : Text.strip (cell s) = cell s := Text.stripBy_stripBy

theorem mem_rowLine (h : c ∈ rowLine cells) : c = '|' ∨ c = ' ' ∨ ∃ cs ∈ cells, c ∈ cs := by
  have hmark : ∀ {text : String}, c ∈ text.toList → text.toList.all (fun d => d = '|' || d = ' ') →
      c = '|' ∨ c = ' ' := fun hc hall => by simpa using List.all_eq_true.mp hall c hc
  rcases List.mem_append.mp h with h | h
  · rcases List.mem_append.mp h with h | h
    · exact (hmark h (by decide)).imp id Or.inl
    · rcases Text.mem_intercalate h with h | h
      · exact (hmark h (by decide)).imp id Or.inl
      · exact Or.inr (Or.inr h)
  · exact (hmark h (by decide)).imp id Or.inl

theorem mem_paramsCell {params : List (String × String)} (h : c ∈ paramsCell params) :
    c = ';' ∨ c = ' ' ∨ ∃ p ∈ params, c ∈ p.1.toList ∨ c = '=' ∨ c ∈ cell p.2 := by
  rcases Text.mem_intercalate h with h | ⟨l, hl, hc⟩
  · have hall : "; ".toList.all (fun d => d = ';' || d = ' ') = true := by decide
    have heq : c = ';' ∨ c = ' ' := by simpa using List.all_eq_true.mp hall c h
    exact heq.imp id Or.inl
  · obtain ⟨p, hp, rfl⟩ := List.mem_map.mp hl
    refine Or.inr (Or.inr ⟨p, hp, ?_⟩)
    simpa using hc

/-- The cells of the row of an item, as they are read back. -/
theorem cellsOf_item (title action : String) (params : List (String × String)) (cycles : Nat)
    (approved : Bool) :
    cellsOf (rowLine [cell title, cell action, paramsCell params, Nat.toDigits 10 cycles,
        if approved then "yes".toList else []]) =
      cell title :: cell action :: (((paramsCell params).splitOn '|').map Text.strip ++
        [Nat.toDigits 10 cycles, if approved then "yes".toList else []]) := by
  have hyes : '|' ∉ (if approved then "yes".toList else []) := by
    split_ifs <;> decide
  have hstrip : Text.strip (if approved then "yes".toList else []) =
      if approved then "yes".toList else [] := by
    split_ifs <;> decide
  rw [cellsOf_rowLine (by simp)]
  simp only [List.flatMap_cons, List.flatMap_nil, map_strip_splitOn (not_bar_cell _),
    map_strip_splitOn (not_bar_of_not_mark (digits_not_mark _)), map_strip_splitOn hyes,
    strip_cell, strip_digits, hstrip, List.append_nil, List.cons_append, List.nil_append]

end SuiteText

end Slas
