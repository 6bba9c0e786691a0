/-
  Slas.Validation.RoundTrip

  What was previewed against what runs: a confirmed suite goes back as Markdown and is read
  again.  `roundTrips_iff` says for which suites the items that are read are the items that
  were shown.
-/

import Slas.Lib.Text
import Slas.Validation.SuiteItems
import Slas.Validation.SuiteView
import Slas.Validation.Brackets

namespace Slas

namespace SuiteText

open AsciiCase (of_upper toLower_toLower)
open Lines (splitlines Unbroken isLineBreak)
open Patterns (search)

/-! ## Round trips -/

/-- A suite that was read from a document, or from the rows of a worksheet. -/
def Obtained (U : Unicode) (s : Suite) : Prop :=
  (∃ text source, parseSuiteMd U text source = .ok s) ∨
    ∃ rows source, parseSuiteRows U rows source = .ok s

/-- The same item; the parameters are a dictionary. -/
structure SameItem (a b : SuiteItem) : Prop where
  title : a.title = b.title
  action : a.action = b.action
  params : ∀ key, a.params.lookup key = b.params.lookup key
  cycles : a.cycles = b.cycles
  approved : a.approved = b.approved

/-- The suite can be shown, and its Markdown is read as a suite with the same items. -/
def RoundTrips (U : Unicode) (B : Builtins) (s : Suite) : Prop :=
  ∃ view s', suiteView B s = .ok view ∧
    parseSuiteMd U (suiteToMarkdown view) "suite.md" = .ok s' ∧
    List.Forall₂ SameItem s.items s'.items

/-- The parameters of an item as they are written. -/
def writtenParams (item : SuiteItem) : List Char :=
  "; ".toList.intercalate (item.params.map fun p => p.1.toList ++ '=' :: p.2.toList)

/-- The text that counts and settle times are looked for in when an item is read again. -/
def writtenText (item : SuiteItem) : List Char :=
  Text.strip item.title.toList ++ ' ' :: item.action.toList ++ ' ' :: writtenParams item

/-- No line boundary, and no bar. -/
def Clean (c : Char) : Prop := isLineBreak c = false ∧ c ≠ '|'

/-- What an item must be to come back as it is. -/
structure Stable (U : Unicode) (B : Builtins) (item : SuiteItem) : Prop where
  /-- it can be shown: `map_action` does not raise -/
  shown : ∃ compiled, mapAction B item = .ok compiled
  clean : Within Clean item
  /-- cleaning the title leaves it as it is -/
  title : titleOf U (Text.strip item.title.toList) item.action.toList = item.title.toList
  cycles : item.cycles ≤ 10000
  /-- the count that its text names can be read -/
  counted : ∃ n, cyclesInText U (writtenText item) = .ok n
  /-- its text names no settle time that is not a parameter -/
  settle : search (settleAt U) (writtenText item) ≠ none → "settle_s" ∈ Dict.keys item.params
  /-- its parameters do not say that it is approved if it is not -/
  approved : item.approved = false → search (approvedAt U) (writtenParams item) = none

/-! ## Views and documents -/

variable {U : Unicode} {B : Builtins} {s s' : Suite} {item : SuiteItem} {items : List SuiteItem}
  {view : SuiteView} {rows : List (List (List Char))} {c : Char} {title source : String} {n : Nat}

/-- The cells that an item is written in. -/
def writtenCells (item : SuiteItem) : List (List Char) :=
  [cell item.title, cell item.action, paramsCell item.params, Nat.toDigits 10 item.cycles,
    if item.approved then "yes".toList else []]

theorem itemView_ok {shown : SuiteItemView} (h : itemView B item = .ok shown) :
    (∃ compiled, mapAction B item = .ok compiled) ∧ itemCells shown = writtenCells item := by
  unfold itemView itemIsDestructive at h
  cases hmap : mapAction B item with
  | error e => simp [hmap, Except.map] at h
  | ok compiled =>
    simp only [hmap, Except.map, Except.ok.injEq] at h
    subst h
    exact ⟨⟨compiled, rfl⟩, rfl⟩

theorem exists_itemView (h : ∃ compiled, mapAction B item = .ok compiled) :
    ∃ shown, itemView B item = .ok shown := by
  obtain ⟨compiled, hcompiled⟩ := h
  simp [itemView, itemIsDestructive, hcompiled, Except.map]

theorem mapM_itemView {views : List SuiteItemView} (h : items.mapM (itemView B) = .ok views) :
    (∀ item ∈ items, ∃ compiled, mapAction B item = .ok compiled) ∧
      views.map itemCells = items.map writtenCells := by
  induction items generalizing views with
  | nil =>
    rw [List.mapM_nil] at h
    cases h
    simp
  | cons item items ih =>
    simp only [List.mapM_cons, bind, Except.bind] at h
    cases hshown : itemView B item with
    | error e => simp [hshown] at h
    | ok shown =>
      cases hrest : items.mapM (itemView B) with
      | error e => simp [hshown, hrest] at h
      | ok rest =>
        simp only [hshown, hrest, pure, Except.pure, Except.ok.injEq] at h
        subst h
        obtain ⟨hmap, hcells⟩ := itemView_ok hshown
        obtain ⟨hmaps, hrows⟩ := ih hrest
        refine ⟨fun a ha => ?_, by rw [List.map_cons, List.map_cons, hcells, hrows]⟩
        rcases List.mem_cons.mp ha with rfl | ha
        · exact hmap
        · exact hmaps a ha

theorem exists_mapM (h : ∀ item ∈ items, ∃ compiled, mapAction B item = .ok compiled) :
    ∃ views, items.mapM (itemView B) = .ok views := by
  induction items with
  | nil => exact ⟨[], rfl⟩
  | cons item items ih =>
    obtain ⟨shown, hshown⟩ := exists_itemView (h item List.mem_cons_self)
    obtain ⟨rest, hrest⟩ := ih fun a ha => h a (List.mem_cons_of_mem _ ha)
    exact ⟨shown :: rest, by simp [List.mapM_cons, hshown, hrest, bind, Except.bind, pure,
      Except.pure]⟩

/-- The text of the document. -/
def documentOf (title : String) (rows : List (List (List Char))) : String :=
  String.ofList (['\n'].intercalate (linesOf title rows) ++ ['\n'])

/-- A round trip is a suite that can be shown, and a document that is read. -/
theorem roundTrips_iff_document : RoundTrips U B s ↔
    (∀ item ∈ s.items, ∃ compiled, mapAction B item = .ok compiled) ∧
      ∃ s', parseSuiteMd U (documentOf s.title (s.items.map writtenCells)) "suite.md" = .ok s' ∧
        List.Forall₂ SameItem s.items s'.items := by
  have hview : ∀ {view}, suiteView B s = .ok view →
      (∀ item ∈ s.items, ∃ compiled, mapAction B item = .ok compiled) ∧
        suiteToMarkdown view = documentOf s.title (s.items.map writtenCells) := by
    intro view h
    unfold suiteView at h
    cases hviews : s.items.mapM (itemView B) with
    | error e => simp [hviews, Except.map] at h
    | ok views =>
      simp only [hviews, Except.map, Except.ok.injEq] at h
      subst h
      obtain ⟨hmaps, hrows⟩ := mapM_itemView hviews
      exact ⟨hmaps, by rw [suiteToMarkdown, documentOf, hrows]⟩
  constructor
  · rintro ⟨view, s', hshown, hparse, hsame⟩
    obtain ⟨hmaps, hdocument⟩ := hview hshown
    exact ⟨hmaps, s', hdocument ▸ hparse, hsame⟩
  · rintro ⟨hmaps, s', hparse, hsame⟩
    obtain ⟨views, hviews⟩ := exists_mapM hmaps
    have hshown : ∃ view, suiteView B s = .ok view := by simp [suiteView, hviews, Except.map]
    obtain ⟨view, hshown⟩ := hshown
    exact ⟨view, s', hshown, (hview hshown).2 ▸ hparse, hsame⟩

/-! ## The lines of a document -/

/-- The lines of the heading. -/
def headLines (title : String) : List (List Char) :=
  splitlines ("# ".toList ++ cell title ++ ['\n'])

theorem not_bar_headLines (title : String) : ∀ line ∈ headLines title, isTableLine line = false := by
  intro line hline
  have hbar : '|' ∉ line := by
    intro h
    have hin := (Lines.mem_line _ line hline).2 '|' h
    rcases List.mem_append.mp hin with hin | hin
    · rcases List.mem_append.mp hin with hin | hin
      · exact absurd hin (by decide)
      · exact not_bar_cell title hin
    · exact absurd hin (by decide)
  by_contra hline'
  have hhead : (Text.strip line).head? = some '|' := by
    simpa [isTableLine] using hline'
  exact hbar (Text.mem_of_mem_stripBy (List.mem_of_head? hhead))

theorem cell_trimmed (text : String) : Text.Trimmed Lines.isSpace (cell text) :=
  Text.trimmed_stripBy _ _

/-- The heading is on the first line, if there is one. -/
theorem headLines_eq (title : String) : ∃ first rest, headLines title = first :: rest ∧
    "# ".toList.isPrefixOf first = true ∧
      (Text.strip (first.drop 2) = [] ↔ cell title = []) := by
  have hhash : Unbroken "# ".toList := by
    intro c hc
    have hall : "# ".toList.all (fun d => !isLineBreak d) = true := by decide
    simpa using List.all_eq_true.mp hall c hc
  rcases Lines.unbroken_or_first_break (cell title) with hcell | ⟨p, c, q, heq, hp, hc⟩
  · refine ⟨"# ".toList ++ cell title, [], ?_, by simp, ?_⟩
    · have hline : Unbroken ("# ".toList ++ cell title) := by
        intro d hd
        exact (List.mem_append.mp hd).elim (hhash d) (hcell d)
      exact Lines.splitlines_newline hline
    · have hdrop : ("# ".toList ++ cell title).drop 2 = cell title := rfl
      rw [hdrop, strip_cell]
  · have hline : Unbroken ("# ".toList ++ p) := by
      intro d hd
      exact (List.mem_append.mp hd).elim (hhash d) (hp d)
    obtain ⟨rest, hrest⟩ := Lines.splitlines_break (q := q ++ ['\n']) hline hc
    refine ⟨"# ".toList ++ p, rest, ?_, by simp, iff_of_false ?_ (by simp [heq])⟩
    · rw [headLines, heq]
      simpa using hrest
    · -- the cell begins with a character that is no white space
      have hdrop : ("# ".toList ++ p).drop 2 = p := rfl
      rw [hdrop]
      cases p with
      | nil =>
        have hspace := (cell_trimmed title).1 c (by rw [heq]; rfl)
        rw [Lines.isSpace_of_isLineBreak hc] at hspace
        cases hspace
      | cons d p =>
        have hspace := (cell_trimmed title).1 d (by rw [heq]; rfl)
        intro hnil
        have hall : Text.stripBy Lines.isSpace (d :: p) = [] := hnil
        rw [Text.stripBy, List.dropWhile_cons, if_neg (by simp [hspace]),
          List.rdropWhile_eq_nil_iff] at hall
        simpa [hspace] using hall d List.mem_cons_self

theorem document_lines (title : String) (hrows : ∀ row ∈ rows, Unbroken (rowLine row)) :
    splitlines (documentOf title rows).toList =
      headLines title ++ [] :: headerLine :: ruleLine :: rows.map rowLine := by
  have hrest : ∀ line ∈ [] :: headerLine :: ruleLine :: rows.map rowLine, Unbroken line := by
    intro line hline
    have hfixed : ∀ fixed ∈ [[], headerLine, ruleLine],
        fixed.all (fun d => !isLineBreak d) = true := by decide
    simp only [List.mem_cons, List.mem_map] at hline
    rcases hline with rfl | rfl | rfl | ⟨row, hrow, rfl⟩
    · simp [Unbroken]
    · exact fun c hc => by simpa using List.all_eq_true.mp (hfixed headerLine (by simp)) c hc
    · exact fun c hc => by simpa using List.all_eq_true.mp (hfixed ruleLine (by simp)) c hc
    · exact hrows row hrow
  rw [documentOf, String.toList_ofList, Text.intercalate_append (by simp [linesOf]), linesOf,
    List.flatMap_cons, List.append_assoc, List.singleton_append, Lines.splitlines_append_newline,
    Text.splitlines_flatMap hrest]
  rfl

/-! ## The table of a document -/

def tableColumns : Columns := ⟨some 0, some 1, some 2, some 3, some 4⟩

theorem columns_header (U : Unicode) :
    columns ((cellsOf headerLine).map fun cell => U.lower (Text.strip cell)) = tableColumns := by
  have hlower : (cellsOf headerLine).map (fun cell => U.lower (Text.strip cell)) =
      (cellsOf headerLine).map fun cell => (Text.strip cell).map Char.toLower := by
    refine List.map_congr_left fun cell hcell => U.lower_ascii _ ?_
    have hall : (cellsOf headerLine).all
        (fun cell => (Text.strip cell).all fun c => decide (c.toNat < 128)) = true := by decide
    intro c hc
    simpa using List.all_eq_true.mp (List.all_eq_true.mp hall cell hcell) c hc
  rw [hlower]
  decide

theorem isRule_row {row : List (List Char)} (h : Nat.toDigits 10 n ∈ row) : isRule row = false := by
  by_contra hrule
  have hrule' : isRule row = true := by simpa using hrule
  have hall := List.all_eq_true.mp hrule' _ h
  obtain ⟨c, cs, hdigits⟩ := List.exists_cons_of_ne_nil (Nat.toDigits_ne_nil (n := n) (b := 10))
  have hdigit : c.isDigit = true :=
    Nat.isDigit_of_mem_toDigits (by decide) (by decide) (hdigits ▸ List.mem_cons_self)
  have hin := List.all_eq_true.mp hall c (hdigits ▸ List.mem_cons_self)
  have hne : ∀ d ∈ "-: ".toList, c ≠ d := by
    rintro d hd rfl
    have hnone : "-: ".toList.all (fun d => !d.isDigit) = true := by decide
    have hd' := List.all_eq_true.mp hnone c hd
    rw [hdigit] at hd'
    cases hd'
  exact hne c (by simpa using hin) rfl

/-- The rows under the header. -/
theorem rows_of_document (title : String)
    (hdigits : ∀ row ∈ rows, ∃ n, Nat.toDigits 10 n ∈ cellsOf (rowLine row)) :
    rowsFromMarkdownTable ((headLines title ++ [] :: headerLine :: ruleLine ::
        rows.map rowLine).filter isTableLine) =
      cellsOf headerLine :: rows.map fun row => cellsOf (rowLine row) := by
  have hhead : (headLines title).filter isTableLine = [] :=
    List.filter_eq_nil_iff.mpr fun line hline => by simp [not_bar_headLines title line hline]
  have hrows : (rows.map rowLine).filter isTableLine = rows.map rowLine := by
    refine List.filter_eq_self.mpr fun line hline => ?_
    obtain ⟨row, -, rfl⟩ := List.mem_map.mp hline
    exact isTableLine_rowLine row
  have htable : (headLines title ++ [] :: headerLine :: ruleLine :: rows.map rowLine).filter
      isTableLine = headerLine :: ruleLine :: rows.map rowLine := by
    rw [List.filter_append, hhead, List.nil_append, List.filter_cons_of_neg (by decide),
      List.filter_cons_of_pos (by decide), List.filter_cons_of_pos (by decide), hrows]
  have hkept : (rows.map fun row => cellsOf (rowLine row)).filter
      (fun row => row ≠ [] ∧ isRule row = false) = rows.map fun row => cellsOf (rowLine row) := by
    refine List.filter_eq_self.mpr fun cells hcells => ?_
    obtain ⟨row, hrow, rfl⟩ := List.mem_map.mp hcells
    obtain ⟨n, hn⟩ := hdigits row hrow
    exact decide_eq_true ⟨List.ne_nil_of_mem hn, isRule_row hn⟩
  rw [htable, rowsFromMarkdownTable, List.filter_cons_of_pos (by decide),
    List.filter_cons_of_pos (by decide), hrows, List.map_cons, List.map_cons,
    List.filter_cons_of_pos (by decide), List.filter_cons_of_neg (by decide), List.map_map]
  exact congrArg _ hkept

/-! ## Reading a document -/

/-- A row with a title is not left out. -/
theorem draftOfRow_ne_none {first : List Char} {rest : List (List Char)}
    (h : Text.strip first ≠ []) : draftOfRow U tableColumns 5 (first :: rest) ≠ .ok none := by
  unfold draftOfRow
  have hfirst : ((first :: rest) ++ List.replicate (5 - (first :: rest).length) []).getD 0 [] =
      first := rfl
  simp only [tableColumns, Option.getD_some, hfirst, h, false_and, if_false]
  cases cyclesInText U (first ++ ' ' :: cellAt (first :: rest ++
      List.replicate (5 - (first :: rest).length) []) (some 1) first ++ ' ' ::
        cellAt (first :: rest ++ List.replicate (5 - (first :: rest).length) []) (some 2) []) with
  | error e => simp [bind, Except.bind]
  | ok inText =>
    simp only [bind, Except.bind]
    split <;> simp [pure, Except.pure]

theorem itemsOfRows_length {cols : Columns} {width : Nat}
    (hrows : ∀ row ∈ rows, draftOfRow U cols width row ≠ .ok none)
    (h : itemsOfRows U cols width n rows = .ok items) : items.length = rows.length := by
  induction rows generalizing n items with
  | nil =>
    cases h
    rfl
  | cons row rows ih =>
    have hrest := fun r hr => hrows r (List.mem_cons_of_mem _ hr)
    rw [itemsOfRows] at h
    cases hdraft : draftOfRow U cols width row with
    | error e => simp [hdraft, bind, Except.bind] at h
    | ok found =>
      cases found with
      | none => exact absurd hdraft (hrows row List.mem_cons_self)
      | some draft =>
        simp only [hdraft, bind, Except.bind] at h
        cases hmade : draft.item n with
        | error e => simp [hmade] at h
        | ok made =>
          cases hitems : itemsOfRows U cols width (n + 1) rows with
          | error e => simp [hmade, hitems] at h
          | ok later =>
            simp only [hmade, hitems, pure, Except.pure, Except.ok.injEq] at h
            subst h
            simp [ih hrest hitems]

/-- A document whose rows are not broken is read as its rows. -/
theorem parse_document (hrows : ∀ row ∈ rows, Unbroken (rowLine row))
    (hdigits : ∀ row ∈ rows, ∃ n, Nat.toDigits 10 n ∈ cellsOf (rowLine row))
    (htitled : ∀ row ∈ rows, ∃ first rest, cellsOf (rowLine row) = first :: rest ∧
      Text.strip first ≠ [])
    (hne : rows ≠ []) (hcapped : rows.length ≤ 200) :
    (∃ s', parseSuiteMd U (documentOf title rows) source = .ok s' ∧ s'.items = items) ↔
      cell title ≠ [] ∧ itemsOfRows U tableColumns 5 1
        (rows.map fun row => cellsOf (rowLine row)) = .ok items := by
  obtain ⟨first, rest, hhead, hhash, hblank⟩ := headLines_eq title
  have hkept : ∀ row ∈ rows.map (fun row => cellsOf (rowLine row)),
      draftOfRow U tableColumns 5 row ≠ .ok none := by
    intro cells hcells
    obtain ⟨row, hrow, rfl⟩ := List.mem_map.mp hcells
    obtain ⟨first, rest, hfirst, hstrip⟩ := htitled row hrow
    rw [hfirst]
    exact draftOfRow_ne_none hstrip
  have hlines := document_lines title hrows
  have htable : itemsFromRows U (rowsFromMarkdownTable
      ((splitlines (documentOf title rows).toList).filter isTableLine)) source =
      itemsOfRows U tableColumns 5 1 (rows.map fun row => cellsOf (rowLine row)) := by
    rw [hlines, rows_of_document title hdigits, itemsFromRows, columns_header]
    rfl
  have hnonempty : (splitlines (documentOf title rows).toList).filter isTableLine ≠ [] := by
    rw [hlines]
    refine List.ne_nil_of_mem (a := headerLine) (List.mem_filter.mpr ⟨by simp, by decide⟩)
  have hheading : headingOf (splitlines (documentOf title rows).toList) source =
      Text.strip (first.drop 2) := by
    rw [headingOf, hlines, hhead, List.cons_append, List.find?_cons_of_pos hhash]
  have htext : Text.strip (documentOf title rows).toList ≠ [] := by
    intro hnil
    have hhash : '#' ∈ (documentOf title rows).toList := by
      rw [documentOf, String.toList_ofList, Text.intercalate_append (by simp [linesOf]), linesOf,
        List.flatMap_cons]
      exact List.mem_append_left _ (by simp)
    exact absurd (Text.stripBy_eq_nil_iff.mp hnil '#' hhash) (by decide)
  constructor
  · rintro ⟨s', hparse, rfl⟩
    obtain ⟨-, all, hall, -, hmade⟩ := parseSuiteMd_ok.mp hparse
    obtain ⟨hitems, hheading'⟩ := makeSuite_items hmade
    rw [hheading] at hheading'
    refine ⟨fun hnil => hheading' (hblank.mpr hnil), ?_⟩
    simp only [itemsOfLines, hnonempty, if_false, htable, bind, Except.bind] at hall
    cases hread : itemsOfRows U tableColumns 5 1 (rows.map fun row => cellsOf (rowLine row)) with
    | error e => simp [hread] at hall
    | ok read =>
      have hlength := itemsOfRows_length hkept hread
      rw [List.length_map] at hlength
      have hsome : read ≠ [] := fun hnil =>
        hne (List.eq_nil_of_length_eq_zero (by rw [← hlength, hnil]; rfl))
      simp only [hread, hsome, if_false, pure, Except.pure, Except.ok.injEq] at hall
      rw [hitems, ← hall, List.take_of_length_le (by omega)]
  · rintro ⟨htitle, hread⟩
    have hlength := itemsOfRows_length hkept hread
    rw [List.length_map] at hlength
    have hsome : items ≠ [] := fun hnil =>
      hne (List.eq_nil_of_length_eq_zero (by rw [← hlength, hnil]; rfl))
    have hlines' : itemsOfLines U (splitlines (documentOf title rows).toList) source = .ok items := by
      simp only [itemsOfLines, hnonempty, if_false, htable, hread, bind, Except.bind, hsome, pure,
        Except.pure]
    have hmade : ∃ s', makeSuite (headingOf (splitlines (documentOf title rows).toList) source)
        (items.take 200) = .ok s' := by
      have hvalid : headingOf (splitlines (documentOf title rows).toList) source ≠ [] ∧
          items.take 200 ≠ [] ∧ (items.take 200).length ≤ 200 := by
        rw [hheading, List.take_of_length_le (by omega)]
        exact ⟨fun hnil => htitle (hblank.mp hnil), hsome, by omega⟩
      rw [makeSuite, dif_pos hvalid]
      exact ⟨_, rfl⟩
    obtain ⟨s', hmade⟩ := hmade
    refine ⟨s', parseSuiteMd_ok.mpr ⟨htext, items, hlines', hsome, hmade⟩, ?_⟩
    rw [(makeSuite_items hmade).1, List.take_of_length_le (by omega)]

/-! ## Reading one item again -/

theorem cell_of_clean {text : String} (h : ∀ c ∈ text.toList, Clean c) :
    cell text = Text.strip text.toList := by
  have hmap : text.toList.map (fun c => if c = '|' then '/' else if c = '\n' then ' ' else c) =
      text.toList := by
    conv_rhs => rw [← List.map_id text.toList]
    refine List.map_congr_left fun c hc => ?_
    have hnewline : c ≠ '\n' := by
      rintro rfl
      exact absurd (h _ hc).1 (by decide)
    rw [if_neg (h c hc).2, if_neg hnewline]
    rfl
  rw [cell, hmap]

theorem cell_eq_nil_iff (text : String) : cell text = [] ↔ Text.strip text.toList = [] := by
  rw [cell, Text.strip, Text.strip, Text.stripBy_eq_nil_iff, Text.stripBy_eq_nil_iff]
  constructor
  · intro h c hc
    have hcell := h _ (List.mem_map_of_mem hc)
    split_ifs at hcell with hbar hnewline
    · exact absurd hcell (by decide)
    · rw [hnewline]
      decide
    · exact hcell
  · intro h c hc
    obtain ⟨d, hd, rfl⟩ := List.mem_map.mp hc
    have hspace := h d hd
    split_ifs with hbar hnewline
    · rw [hbar] at hspace
      exact absurd hspace (by decide)
    · decide
    · exact hspace

theorem Tidy.title_cell (h : Tidy U item) : cell item.title ≠ [] := by
  rw [ne_eq, cell_eq_nil_iff, Text.strip, Text.stripBy_eq_nil_iff]
  intro hall
  obtain ⟨c, cs, htitle⟩ := List.exists_cons_of_ne_nil
    (fun hnil => item.title_ne (String.toList_eq_nil_iff.mp hnil) : item.title.toList ≠ [])
  have hspace := h.title c (by rw [htitle]; rfl)
  rw [hall c (by rw [htitle]; exact List.mem_cons_self)] at hspace
  cases hspace

/-- The parameters of a clean item are written as they are. -/
theorem paramsCell_of_clean (htidy : Tidy U item) (hclean : Within Clean item) :
    paramsCell item.params = writtenParams item := by
  refine congrArg _ (List.map_congr_left fun p hp => ?_)
  rw [cell_of_clean (hclean.params p hp).2, (htidy.params.2 p hp).stripped]

/-- One parameter as it is written. -/
def pairText (p : String × String) : List Char := p.1.toList ++ '=' :: p.2.toList

theorem splitOnP_params {p : String × String} {params : List (String × String)}
    (h : ∀ q ∈ p :: params, TidyPair U q.1.toList q.2.toList) :
    ("; ".toList.intercalate ((p :: params).map pairText)).splitOnP (fun c => c = ';' || c = ',') =
      pairText p :: params.map fun q => ' ' :: pairText q := by
  have hplain : ∀ q ∈ p :: params, ∀ c ∈ pairText q, (c = ';' || c = ',') = false := by
    intro q hq c hc
    have hpair := h q hq
    rcases List.mem_append.mp hc with hc | hc
    · simp [hpair.key_plain c hc]
    · rcases List.mem_cons.mp hc with rfl | hc
      · decide
      · simp [hpair.value_plain c hc]
  induction params generalizing p with
  | nil =>
    have hone : "; ".toList.intercalate [pairText p] = pairText p := by simp [List.intercalate]
    rw [List.map_cons, List.map_nil, hone,
      List.splitOnP_eq_singleton fun c hc => by simpa using hplain p List.mem_cons_self c hc]
    rfl
  | cons q params ih =>
    have hrest := ih (fun r hr => h r (List.mem_cons_of_mem _ hr))
      fun r hr => hplain r (List.mem_cons_of_mem _ hr)
    have hjoin : "; ".toList.intercalate ((p :: q :: params).map pairText) =
        pairText p ++ ';' :: ' ' :: "; ".toList.intercalate ((q :: params).map pairText) := by
      rw [List.map_cons, List.map_cons, Text.intercalate_cons_cons]
      simp
    rw [hjoin, List.splitOnP_append_cons _ _ (by decide),
      List.splitOnP_eq_singleton fun c hc => by simpa using hplain p List.mem_cons_self c hc,
      Text.splitOnP_cons_of_not (by decide), hrest]
    rfl

theorem pieces_params (h : Params (TidyPair U) item.params) : pieces (writtenParams item) =
    if item.params = [] then [[]] else item.params.map pairText := by
  have hwritten : writtenParams item = "; ".toList.intercalate (item.params.map pairText) := rfl
  rw [pieces, hwritten]
  cases hparams : item.params with
  | nil => rfl
  | cons p params =>
    have htidy : ∀ q ∈ p :: params, TidyPair U q.1.toList q.2.toList := hparams ▸ h.2
    rw [splitOnP_params htidy, if_neg (by simp)]
    dsimp only
    rw [List.map_map, List.map_cons]
    refine congrArg _ (List.map_congr_left fun q hq => ?_)
    -- a name begins with a character that is no white space
    have hpair := htidy q (List.mem_cons_of_mem _ hq)
    obtain ⟨c, cs, hkey⟩ := List.exists_cons_of_ne_nil hpair.key_ne
    have hspace : Lines.isSpace c = false :=
      (hpair.stable ▸ trimmed_keyOf U q.1.toList).1 c (by rw [hkey]; rfl)
    have hdrop : (pairText q).dropWhile Lines.isSpace = pairText q := by
      rw [pairText, hkey, List.cons_append, List.dropWhile_cons, if_neg (by simp [hspace])]
    have hblank : Lines.isSpace ' ' = true := by decide
    rw [Function.comp_apply, List.dropWhile_cons, if_pos hblank, hdrop]

theorem addPair_pairText {p : String × String} {params : List (String × String)}
    (h : TidyPair U p.1.toList p.2.toList) :
    addPair U params (pairText p) = Dict.set p.1 p.2 params := by
  have hkey : '=' ∉ p.1.toList := fun hin => (h.key_plain '=' hin).2.2 rfl
  have hstrip : Text.strip p.1.toList = p.1.toList :=
    Text.stripBy_of_trimmed (h.stable ▸ trimmed_keyOf U p.1.toList)
  rw [addPair, pairText, Text.partition_append hkey]
  dsimp only
  rw [if_pos ⟨by simp, by rw [hstrip]; exact h.key_ne⟩, h.stable, h.stripped,
    String.ofList_toList, String.ofList_toList]

/-- What is read of the parameters: what was found in the text, under what was written. -/
theorem lookup_params (h : Params (TidyPair U) item.params) (params : List (String × String))
    (key : String) :
    ((pieces (writtenParams item)).foldl (addPair U) params).lookup key =
      (item.params.lookup key).or (params.lookup key) := by
  have hfold : (pieces (writtenParams item)).foldl (addPair U) params =
      item.params.foldl (fun d p => Dict.set p.1 p.2 d) params := by
    rw [pieces_params h]
    split_ifs with hnil
    · rw [hnil]
      rfl
    · rw [List.foldl_map]
      have htidy := h.2
      generalize item.params = pairs at htidy
      induction pairs generalizing params with
      | nil => rfl
      | cons p pairs ih =>
        rw [List.foldl_cons, List.foldl_cons, addPair_pairText (htidy p List.mem_cons_self)]
        exact ih _ fun q hq => htidy q (List.mem_cons_of_mem _ hq)
  rw [hfold, Dict.lookup_foldl_set h.1]

theorem trimmed_writtenParams (h : Params (TidyPair U) item.params) :
    Text.strip (writtenParams item) = writtenParams item := by
  refine Text.stripBy_of_trimmed (Text.trimmed_intercalate fun l hl => ?_).1
  obtain ⟨p, hp, rfl⟩ := List.mem_map.mp hl
  have hpair := h.2 p hp
  have hkey : Text.Trimmed Lines.isSpace p.1.toList := hpair.stable ▸ trimmed_keyOf U p.1.toList
  refine ⟨by simp, fun c hc => ?_, fun c hc => ?_⟩
  · rw [List.head?_append_of_ne_nil _ hpair.key_ne] at hc
    exact hkey.1 c hc
  · rw [List.getLast?_append_of_ne_nil _ (by simp)] at hc
    cases hvalue : p.2.toList with
    | nil =>
      rw [hvalue, List.getLast?_singleton, Option.mem_def, Option.some.injEq] at hc
      rw [← hc]
      decide
    | cons d ds =>
      rw [List.getLast?_cons_of_ne_nil (by simp [hvalue])] at hc
      have hstripped := Text.trimmed_stripBy Lines.isSpace p.2.toList
      rw [← Text.strip, hpair.stripped] at hstripped
      exact hstripped.2 c hc

/-- The cells of a clean item, as they are read again. -/
theorem cellsOf_clean (htidy : Tidy U item) (hclean : Within Clean item) :
    cellsOf (rowLine (writtenCells item)) =
      [Text.strip item.title.toList, item.action.toList, writtenParams item,
        Nat.toDigits 10 item.cycles, if item.approved then "yes".toList else []] := by
  have hbar : '|' ∉ writtenParams item := by
    rw [← paramsCell_of_clean htidy hclean]
    intro hin
    rcases mem_paramsCell hin with heq | heq | ⟨p, hp, hkey | heq | hvalue⟩
    · exact absurd heq (by decide)
    · exact absurd heq (by decide)
    · exact ((hclean.params p hp).1 _ hkey).2 rfl
    · exact absurd heq (by decide)
    · exact not_bar_cell p.2 hvalue
  rw [writtenCells, cellsOf_item, paramsCell_of_clean htidy hclean, map_strip_splitOn hbar,
    trimmed_writtenParams htidy.params, cell_of_clean hclean.title, cell_of_clean hclean.action,
    htidy.action]
  rfl

/-- What a draft says of an item that is read again. -/
structure SameDraft (item : SuiteItem) (draft : Draft) : Prop where
  title : item.title.toList = draft.title
  action : item.action.toList = draft.action
  params : ∀ key, item.params.lookup key = draft.params.lookup key
  cycles : item.cycles = draft.cycles
  approved : item.approved = draft.approved

/-- An item that is read again, with the cycles of its cell. -/
def rereadDraft (U : Unicode) (item : SuiteItem) (cycles : Int) : Draft where
  title := titleOf U (Text.strip item.title.toList) item.action.toList
  action := item.action.toList
  params := (pieces (writtenParams item)).foldl (addPair U) (settleParams U (writtenText item))
  cycles := (max 1 (min cycles 10000)).toNat
  approved := isApproved U (if item.approved then "yes".toList else []) (writtenParams item)

theorem draft_of_item (htidy : Tidy U item) (hclean : Within Clean item) :
    draftOfRow U tableColumns 5 (cellsOf (rowLine (writtenCells item))) =
      (cyclesInText U (writtenText item)).bind fun inText =>
        (cyclesOfCell U (Nat.toDigits 10 item.cycles) inText).bind fun cycles =>
          .ok (some (rereadDraft U item cycles)) := by
  have hblank : ¬ (Text.strip (Text.strip item.title.toList) = [] ∧
      Text.strip item.action.toList = []) := by
    rintro ⟨htitle, -⟩
    rw [Text.strip, Text.strip, Text.stripBy_stripBy] at htitle
    exact htidy.title_cell ((cell_eq_nil_iff _).mpr htitle)
  have haction : item.action.toList ≠ [] := fun hnil =>
    item.action_ne (String.toList_eq_nil_iff.mp hnil)
  rw [cellsOf_clean htidy hclean, draftOfRow]
  simp only [tableColumns, Option.getD_some, cellAt, List.length_cons, List.length_nil,
    List.replicate_zero, List.append_nil, List.getD_cons_zero, List.getD_cons_succ, Nat.reduceAdd,
    Nat.reduceSub]
  rw [if_neg hblank, if_neg haction, htidy.action]
  rfl

theorem isApproved_item (U : Unicode) (item : SuiteItem) :
    isApproved U (if item.approved then "yes".toList else []) (writtenParams item) =
      (item.approved || (search (approvedAt U) (writtenParams item)).isSome) := by
  rw [isApproved]
  refine congrArg (· || _) ?_
  cases item.approved with
  | true =>
    rw [if_pos rfl, show Text.strip "yes".toList = "yes".toList by decide,
      U.lower_ascii _ (ascii_of_all (by decide))]
    decide
  | false =>
    rw [if_neg (by simp), show Text.strip [] = [] from rfl, U.lower_ascii _ (by simp)]
    decide

/-- The cycles of a row that was written: itself, up to the limit. -/
theorem cycles_of_cell (U : Unicode) (item : SuiteItem) (inText : Nat) :
    (∃ cycles, cyclesOfCell U (Nat.toDigits 10 item.cycles) inText = .ok cycles ∧
      item.cycles = (max 1 (min cycles 10000)).toNat) ↔ item.cycles ≤ 10000 := by
  have hpos := item.cycles_pos
  constructor
  · rintro ⟨cycles, -, heq⟩
    omega
  · intro hle
    refine ⟨item.cycles, ?_, by omega⟩
    rw [cyclesOfCell, strip_digits, if_neg Nat.toDigits_ne_nil, U.float_nat _ hle]
    simp [truncate, Decimal.ofNat]

/-- **One item**: a clean item comes back exactly if its title is left alone, its cycles are
    within the limit, its count can be read, and its text says nothing that it is not. -/
theorem rereads_iff (htidy : Tidy U item) (hclean : Within Clean item) :
    (∃ draft, draftOfRow U tableColumns 5 (cellsOf (rowLine (writtenCells item))) =
        .ok (some draft) ∧ SameDraft item draft) ↔
      titleOf U (Text.strip item.title.toList) item.action.toList = item.title.toList ∧
      item.cycles ≤ 10000 ∧ (∃ n, cyclesInText U (writtenText item) = .ok n) ∧
      (search (settleAt U) (writtenText item) ≠ none → "settle_s" ∈ Dict.keys item.params) ∧
      (item.approved = false → search (approvedAt U) (writtenParams item) = none) := by
  have hparams : (∀ key, item.params.lookup key = ((pieces (writtenParams item)).foldl (addPair U)
      (settleParams U (writtenText item))).lookup key) ↔
      (search (settleAt U) (writtenText item) ≠ none → "settle_s" ∈ Dict.keys item.params) := by
    simp only [lookup_params htidy.params]
    cases hsettle : search (settleAt U) (writtenText item) with
    | none => simp [settleParams, hsettle]
    | some digits =>
      simp only [settleParams, hsettle, ne_eq, reduceCtorEq, not_false_eq_true, forall_true_left,
        Dict.lookup_cons_eq_if, List.lookup_nil, ← Dict.lookup_isSome_iff]
      constructor
      · intro hall
        have hkey := hall "settle_s"
        cases hfound : item.params.lookup "settle_s" with
        | none => simp [hfound] at hkey
        | some value => rfl
      · intro hsome key
        by_cases hkey : key = "settle_s"
        · subst hkey
          obtain ⟨value, hvalue⟩ := Option.isSome_iff_exists.mp hsome
          rw [hvalue]
          rfl
        · simp [hkey]
  have happroved : item.approved = (item.approved ||
      (search (approvedAt U) (writtenParams item)).isSome) ↔
      (item.approved = false → search (approvedAt U) (writtenParams item) = none) := by
    cases item.approved <;> cases search (approvedAt U) (writtenParams item) <;> simp
  rw [draft_of_item htidy hclean]
  constructor
  · rintro ⟨draft, hdraft, hsame⟩
    cases hcount : cyclesInText U (writtenText item) with
    | error e => simp [hcount, Except.bind] at hdraft
    | ok inText =>
      cases hcycles : cyclesOfCell U (Nat.toDigits 10 item.cycles) inText with
      | error e => simp [hcount, hcycles, Except.bind] at hdraft
      | ok cycles =>
        simp only [hcount, hcycles, Except.bind, Except.ok.injEq, Option.some.injEq] at hdraft
        subst hdraft
        obtain ⟨htitle, -, hkeys, hle, hsaid⟩ := hsame
        simp only [rereadDraft, isApproved_item] at htitle hkeys hle hsaid
        exact ⟨htitle.symm, (cycles_of_cell U item inText).mp ⟨cycles, hcycles, hle⟩,
          ⟨inText, rfl⟩, hparams.mp hkeys, happroved.mp hsaid⟩
  · rintro ⟨htitle, hle, ⟨inText, hcount⟩, hsettle, hnot⟩
    obtain ⟨cycles, hcycles, heq⟩ := (cycles_of_cell U item inText).mpr hle
    have hsame : SameDraft item (rereadDraft U item cycles) := by
      constructor <;> simp only [rereadDraft, isApproved_item]
      · exact htitle.symm
      · exact hparams.mpr hsettle
      · exact heq
      · exact happroved.mpr hnot
    exact ⟨rereadDraft U item cycles, by simp only [hcount, hcycles, Except.bind], hsame⟩

/-! ## All items -/

/-- The title is in the first cell, and the cycles are in one of the others. -/
theorem exists_cells (item : SuiteItem) : ∃ rest,
    cellsOf (rowLine (writtenCells item)) = cell item.title :: rest ∧
      Nat.toDigits 10 item.cycles ∈ rest := by
  rw [writtenCells, cellsOf_item]
  refine ⟨_, rfl, List.mem_cons_of_mem _ (List.mem_append_right _ List.mem_cons_self)⟩

theorem draftOfRow_cells_ne_none (htidy : Tidy U item) :
    draftOfRow U tableColumns 5 (cellsOf (rowLine (writtenCells item))) ≠ .ok none := by
  obtain ⟨rest, hcells, -⟩ := exists_cells item
  rw [hcells]
  refine draftOfRow_ne_none ?_
  rw [strip_cell]
  exact htidy.title_cell

/-- An item that is valid can be made of what is read of it. -/
theorem SameDraft.exists_item {draft : Draft} (h : SameDraft item draft) (hn : 1 ≤ n) :
    ∃ made, draft.item n = .ok made := by
  have hvalid : 1 ≤ n ∧ draft.title ≠ [] ∧ draft.title.length ≤ 200 ∧ draft.action ≠ [] ∧
      1 ≤ draft.cycles := by
    rw [← h.title, ← h.action, ← h.cycles]
    exact ⟨hn, fun hnil => item.title_ne (String.toList_eq_nil_iff.mp hnil),
      by rw [String.length_toList]; exact item.title_le,
      fun hnil => item.action_ne (String.toList_eq_nil_iff.mp hnil), item.cycles_pos⟩
  rw [Draft.item, dif_pos hvalid]
  exact ⟨_, rfl⟩

theorem sameItem_iff {draft : Draft} {made : SuiteItem} (h : draft.Gives made) :
    SameItem item made ↔ SameDraft item draft := by
  constructor
  · intro hsame
    exact ⟨by rw [hsame.title, h.title], by rw [hsame.action, h.action],
      fun key => by rw [hsame.params, h.params], by rw [hsame.cycles, h.cycles],
      by rw [hsame.approved, h.approved]⟩
  · intro hsame
    exact ⟨String.toList_injective (by rw [hsame.title, h.title]),
      String.toList_injective (by rw [hsame.action, h.action]),
      fun key => by rw [hsame.params, h.params], by rw [hsame.cycles, h.cycles],
      by rw [hsame.approved, h.approved]⟩

/-- The rows of the items are read as the same items if each row is. -/
theorem itemsOfRows_same (hn : 1 ≤ n) (htidy : ∀ item ∈ items, Tidy U item) :
    (∃ read, itemsOfRows U tableColumns 5 n
        (items.map fun item => cellsOf (rowLine (writtenCells item))) = .ok read ∧
        List.Forall₂ SameItem items read) ↔
      ∀ item ∈ items, ∃ draft, draftOfRow U tableColumns 5
        (cellsOf (rowLine (writtenCells item))) = .ok (some draft) ∧ SameDraft item draft := by
  induction items generalizing n with
  | nil => simp [itemsOfRows]
  | cons item items ih =>
    have hrest := ih (Nat.le_add_left 1 n) fun a ha => htidy a (List.mem_cons_of_mem _ ha)
    rw [List.map_cons, itemsOfRows, List.forall_mem_cons, ← hrest]
    cases hdraft : draftOfRow U tableColumns 5 (cellsOf (rowLine (writtenCells item))) with
    | error e => simp [bind, Except.bind]
    | ok found =>
      cases found with
      | none => exact absurd hdraft (draftOfRow_cells_ne_none (htidy item List.mem_cons_self))
      | some draft =>
        simp only [bind, Except.bind]
        constructor
        · rintro ⟨read, hread, hsame⟩
          cases hmade : draft.item n with
          | error e => simp [hmade] at hread
          | ok made =>
            cases hlater : itemsOfRows U tableColumns 5 (n + 1)
                (items.map fun item => cellsOf (rowLine (writtenCells item))) with
            | error e => simp [hmade, hlater] at hread
            | ok later =>
              simp only [hmade, hlater, pure, Except.pure, Except.ok.injEq] at hread
              subst hread
              obtain ⟨hfirst, hothers⟩ := List.forall₂_cons.mp hsame
              exact ⟨⟨draft, rfl, (sameItem_iff (Draft.item_gives hmade)).mp hfirst⟩, later, rfl,
                hothers⟩
        · rintro ⟨⟨draft', heq, hfirst⟩, later, hlater, hothers⟩
          cases heq
          obtain ⟨made, hmade⟩ := hfirst.exists_item hn
          refine ⟨made :: later, by simp [hmade, hlater, pure, Except.pure],
            .cons ((sameItem_iff (Draft.item_gives hmade)).mpr hfirst) hothers⟩

/-! ## What comes back -/

theorem Obtained.tidy (h : Obtained U s) : ∀ item ∈ s.items, Tidy U item := by
  intro item hitem
  rcases h with ⟨text, source, hparse⟩ | ⟨rows, source, hparse⟩
  · obtain ⟨draft, hdraft, hgives⟩ := parseSuiteMd_drafted hparse hitem
    exact hdraft.tidy hgives
  · obtain ⟨draft, hdraft, hgives⟩ := parseSuiteRows_drafted hparse hitem
    exact hdraft.tidy hgives

/-- An item has the characters of the same item. -/
theorem SameItem.within {Q : Char → Prop} {a b : SuiteItem} (h : SameItem a b)
    (hparams : (Dict.keys a.params).Nodup) (hb : Within Q b) : Within Q a where
  title := h.title ▸ hb.title
  action := h.action ▸ hb.action
  params p hp := by
    have hlookup := Dict.lookup_eq_of_mem hparams hp
    rw [h.params] at hlookup
    exact hb.params p (Dict.mem_of_lookup hlookup)

/-- An item that has no line boundary is written on one line. -/
theorem unbroken_rowLine (h : Within (fun c => isLineBreak c = false) item) :
    Unbroken (rowLine (writtenCells item)) := by
  have hcell : ∀ {text : String}, (∀ c ∈ text.toList, isLineBreak c = false) →
      ∀ c ∈ cell text, isLineBreak c = false := by
    intro text htext c hc
    rcases mem_shownCell hc with rfl | rfl | ⟨hin, -⟩
    · decide
    · decide
    · exact htext c hin
  intro c hc
  rcases mem_rowLine hc with rfl | rfl | ⟨cs, hcs, hin⟩
  · decide
  · decide
  · simp only [writtenCells, List.mem_cons, List.not_mem_nil, or_false] at hcs
    rcases hcs with rfl | rfl | rfl | rfl | rfl
    · exact hcell h.title c hin
    · exact hcell h.action c hin
    · rcases mem_paramsCell hin with rfl | rfl | ⟨p, hp, hkey | rfl | hvalue⟩
      · decide
      · decide
      · exact (h.params p hp).1 c hkey
      · decide
      · exact hcell (h.params p hp).2 c hvalue
    · by_contra hbreak
      have hspace := Lines.isSpace_of_isLineBreak (c := c) (by simpa using hbreak)
      have hmark := digits_not_mark item.cycles c hin
      rw [isMark_of_isSpace hspace] at hmark
      cases hmark
    · split_ifs at hin
      · have hyes : ("yes".toList.all fun d => !isLineBreak d) = true := by decide
        simpa using List.all_eq_true.mp hyes c hin
      · exact absurd hin List.not_mem_nil

/-- The document of a suite whose items have no line boundary is read as its rows. -/
theorem document_iff (htidy : ∀ item ∈ s.items, Tidy U item)
    (hunbroken : ∀ item ∈ s.items, Within (fun c => isLineBreak c = false) item)
    (items : List SuiteItem) :
    (∃ s', parseSuiteMd U (documentOf s.title (s.items.map writtenCells)) source = .ok s' ∧
        s'.items = items) ↔
      cell s.title ≠ [] ∧ itemsOfRows U tableColumns 5 1
        (s.items.map fun item => cellsOf (rowLine (writtenCells item))) = .ok items := by
  have hrows : ∀ row ∈ s.items.map writtenCells, Unbroken (rowLine row) := by
    intro row hrow
    obtain ⟨item, hitem, rfl⟩ := List.mem_map.mp hrow
    exact unbroken_rowLine (hunbroken item hitem)
  have hdigits : ∀ row ∈ s.items.map writtenCells,
      ∃ n, Nat.toDigits 10 n ∈ cellsOf (rowLine row) := by
    intro row hrow
    obtain ⟨item, -, rfl⟩ := List.mem_map.mp hrow
    obtain ⟨rest, hcells, hcycles⟩ := exists_cells item
    exact ⟨item.cycles, hcells ▸ List.mem_cons_of_mem _ hcycles⟩
  have htitled : ∀ row ∈ s.items.map writtenCells,
      ∃ first rest, cellsOf (rowLine row) = first :: rest ∧ Text.strip first ≠ [] := by
    intro row hrow
    obtain ⟨item, hitem, rfl⟩ := List.mem_map.mp hrow
    obtain ⟨rest, hcells, -⟩ := exists_cells item
    refine ⟨cell item.title, rest, hcells, ?_⟩
    rw [strip_cell]
    exact (htidy item hitem).title_cell
  have hcells : (s.items.map writtenCells).map (fun row => cellsOf (rowLine row)) =
      s.items.map fun item => cellsOf (rowLine (writtenCells item)) := by
    simp only [List.map_map, Function.comp_def]
  rw [← hcells]
  exact parse_document hrows hdigits htitled (by simpa using s.nonempty) (by simpa using s.capped)

/-- The items of a document whose items have no line boundary are the items that were written
    if each row is read as its item. -/
theorem document_same (htidy : ∀ item ∈ s.items, Tidy U item)
    (hunbroken : ∀ item ∈ s.items, Within (fun c => isLineBreak c = false) item) :
    (∃ s', parseSuiteMd U (documentOf s.title (s.items.map writtenCells)) source = .ok s' ∧
        List.Forall₂ SameItem s.items s'.items) ↔
      cell s.title ≠ [] ∧ ∀ item ∈ s.items, ∃ draft, draftOfRow U tableColumns 5
        (cellsOf (rowLine (writtenCells item))) = .ok (some draft) ∧ SameDraft item draft := by
  rw [← itemsOfRows_same (Nat.le_refl 1) htidy]
  constructor
  · rintro ⟨s', hparse, hsame⟩
    obtain ⟨htitle, hread⟩ := (document_iff htidy hunbroken s'.items).mp ⟨s', hparse, rfl⟩
    exact ⟨htitle, s'.items, hread, hsame⟩
  · rintro ⟨htitle, read, hread, hsame⟩
    obtain ⟨s', hparse, rfl⟩ := (document_iff htidy hunbroken read).mpr ⟨htitle, hread⟩
    exact ⟨s', hparse, hsame⟩

theorem isLineBreak_of_not_mark {c : Char} (h : isMark c = false ∨ c = ' ') :
    isLineBreak c = false := by
  rcases h with h | rfl
  · by_contra hbreak
    rw [isMark_of_isSpace (Lines.isSpace_of_isLineBreak (by simpa using hbreak))] at h
    cases h
  · decide

theorem clean_of_not_mark {c : Char} (h : isMark c = false ∨ c = ' ') : Clean c := by
  refine ⟨isLineBreak_of_not_mark h, ?_⟩
  rintro rfl
  exact h.elim (fun h => absurd h (by decide)) (fun h => absurd h (by decide))

theorem exists_same {items' : List SuiteItem} (h : List.Forall₂ SameItem items items')
    (hitem : item ∈ items) : ∃ back ∈ items', SameItem item back := by
  induction h with
  | nil => simp at hitem
  | cons hboth _ ih =>
    rcases List.mem_cons.mp hitem with rfl | hitem
    · exact ⟨_, List.mem_cons_self, hboth⟩
    · obtain ⟨back, hback, hsame⟩ := ih hitem
      exact ⟨back, List.mem_cons_of_mem _ hback, hsame⟩

/-- What comes back had no line boundary. -/
theorem within_of_same {text : String} (htidy : ∀ item ∈ s.items, Tidy U item)
    (hparse : parseSuiteMd U text source = .ok s') (hsame : List.Forall₂ SameItem s.items s'.items) :
    ∀ item ∈ s.items, Within (fun c => isLineBreak c = false) item := by
  intro item hitem
  obtain ⟨back, hback, hboth⟩ := exists_same hsame hitem
  obtain ⟨draft, hdraft, hgives⟩ := parseSuiteMd_drafted hparse hback
  exact hboth.within (htidy item hitem).params.1
    (hdraft.within hgives fun c => isLineBreak_of_not_mark)

/-- An item whose row is read as the item has no bar. -/
theorem clean_of_sameDraft {draft : Draft} (htidy : Tidy U item)
    (hunbroken : Within (fun c => isLineBreak c = false) item)
    (hdraft : draftOfRow U tableColumns 5 (cellsOf (rowLine (writtenCells item))) =
      .ok (some draft)) (hsame : SameDraft item draft) : Within Clean item := by
  obtain ⟨made, hmade⟩ := hsame.exists_item (Nat.le_refl 1)
  have hgives := Draft.item_gives hmade
  have hdrafted : Drafted U Clean draft :=
    .row (unbroken_of_cells (unbroken_rowLine hunbroken)) hdraft
  exact ((sameItem_iff hgives).mpr hsame).within htidy.params.1
    (hdrafted.within hgives fun c => clean_of_not_mark)

/-- **Round trips**: what was previewed is what runs exactly if the heading is not blank and
    each item is one that comes back. -/
theorem roundTrips_iff (U : Unicode) (B : Builtins) (s : Suite) (h : Obtained U s) :
    RoundTrips U B s ↔ Text.strip s.title.toList ≠ [] ∧ ∀ item ∈ s.items, Stable U B item := by
  have htidy := h.tidy
  have hblank : cell s.title ≠ [] ↔ Text.strip s.title.toList ≠ [] :=
    not_congr (cell_eq_nil_iff s.title)
  rw [roundTrips_iff_document, ← hblank]
  constructor
  · rintro ⟨hshown, s', hparse, hsame⟩
    have hunbroken := within_of_same htidy hparse hsame
    obtain ⟨htitle, hdrafts⟩ := (document_same htidy hunbroken).mp ⟨s', hparse, hsame⟩
    refine ⟨htitle, fun item hitem => ?_⟩
    obtain ⟨draft, hdraft, hboth⟩ := hdrafts item hitem
    have hclean := clean_of_sameDraft (htidy item hitem) (hunbroken item hitem) hdraft hboth
    obtain ⟨hname, hcycles, hcounted, hsettle, happroved⟩ :=
      (rereads_iff (htidy item hitem) hclean).mp ⟨draft, hdraft, hboth⟩
    exact ⟨hshown item hitem, hclean, hname, hcycles, hcounted, hsettle, happroved⟩
  · rintro ⟨htitle, hstable⟩
    refine ⟨fun item hitem => (hstable item hitem).shown, ?_⟩
    have hunbroken : ∀ item ∈ s.items, Within (fun c => isLineBreak c = false) item := by
      intro item hitem
      have hclean := (hstable item hitem).clean
      exact ⟨fun c hc => (hclean.title c hc).1, fun c hc => (hclean.action c hc).1,
        fun p hp => ⟨fun c hc => ((hclean.params p hp).1 c hc).1,
          fun c hc => ((hclean.params p hp).2 c hc).1⟩⟩
    refine (document_same htidy hunbroken).mpr ⟨htitle, fun item hitem => ?_⟩
    obtain ⟨-, hclean, hname, hcycles, hcounted, hsettle, happroved⟩ := hstable item hitem
    exact (rereads_iff (htidy item hitem) hclean).mpr
      ⟨hname, hcycles, hcounted, hsettle, happroved⟩

/-! ## A suite that does not come back -/

theorem toLower_eq_or (c : Char) :
    c.toLower = c ∨ (isMark c = false ∧ isMark c.toLower = false) := by
  by_cases hupper : c.val ≥ 'A'.val ∧ c.val ≤ 'Z'.val
  · exact Or.inr (of_upper (P := fun c => isMark c = false ∧ isMark c.toLower = false)
      (by decide +kernel) hupper)
  · exact Or.inl (dif_neg hupper)

theorem isSpace_toLower (c : Char) : Lines.isSpace c.toLower = Lines.isSpace c := by
  rcases toLower_eq_or c with hsame | ⟨hmark, hlower⟩
  · rw [hsame]
  · have hnone : ∀ {d : Char}, isMark d = false → Lines.isSpace d = false := by
      intro d hd
      by_contra hspace
      rw [isMark_of_isSpace (by simpa using hspace)] at hd
      cases hd
    rw [hnone hmark, hnone hlower]

/-- Texts as they are in the ASCII range. -/
theorem map_toLower_rfl (cs : List Char) (_ : ∀ c ∈ cs, c.toNat < 128) :
    cs.map Char.toLower = cs.map Char.toLower := rfl

def Unicode.plain : Unicode where
  isDigit := Char.isDigit
  isWord c := c.isAlphanum || c = '_'
  lower cs := cs.map Char.toLower
  int cs := if cs ≠ [] ∧ cs.all Char.isDigit then some (Nat.ofDigitChars 10 cs 0) else none
  float cs := if cs ≠ [] ∧ cs.all Char.isDigit then
    some (.finite (.ofNat (Nat.ofDigitChars 10 cs 0))) else none
  isDigit_mark _ h := not_isMark_of_isDigit h
  lower_ascii := map_toLower_rfl
  lower_mark cs c hc hmark := by
    obtain ⟨d, hd, rfl⟩ := List.mem_map.mp hc
    rcases toLower_eq_or d with hsame | ⟨-, hlower⟩
    · rwa [hsame]
    · rw [hmark] at hlower
      cases hlower
  lower_trimmed cs h := by
    constructor
    · intro c hc
      rw [List.head?_map] at hc
      obtain ⟨d, hd, rfl⟩ := Option.mem_map.mp hc
      rw [isSpace_toLower]
      exact h.1 d hd
    · intro c hc
      rw [List.getLast?_map] at hc
      obtain ⟨d, hd, rfl⟩ := Option.mem_map.mp hc
      rw [isSpace_toLower]
      exact h.2 d hd
  lower_nil _ h := List.map_eq_nil_iff.mp h
  lower_lower cs := by
    simp only [underscored, List.map_map]
    refine List.map_congr_left fun c _ => ?_
    simp only [Function.comp_apply]
    split_ifs
    · decide
    · exact toLower_toLower c
  float_nat n _ := by
    have hdigits : (Nat.toDigits 10 n).all Char.isDigit = true := List.all_eq_true.mpr fun c hc =>
      Nat.isDigit_of_mem_toDigits (by decide) (by decide) hc
    rw [if_pos ⟨Nat.toDigits_ne_nil, hdigits⟩, Nat.ofDigitChars_ten_toDigits]

/-- The titles that come back. -/
def backTitles (U : Unicode) (B : Builtins) (s : Suite) : Option (List String) :=
  (suiteView B s).toOption.bind fun view =>
    (parseSuiteMd U (suiteToMarkdown view) "suite.md").toOption.map fun s' =>
      s'.items.map (·.title)

theorem RoundTrips.backTitles {U : Unicode} {B : Builtins} {s : Suite} (h : RoundTrips U B s) :
    backTitles U B s = some (s.items.map (·.title)) := by
  obtain ⟨view, s', hview, hparse, hsame⟩ := h
  have htitles : s.items.map (·.title) = s'.items.map (·.title) := by
    generalize s.items = items, s'.items = items' at hsame
    induction hsame with
    | nil => rfl
    | cons hboth _ ih => rw [List.map_cons, List.map_cons, hboth.title, ih]
  rw [htitles]
  simp [SuiteText.backTitles, hview, hparse, Except.toOption]

/-- A bar in a title comes back as a slash. -/
theorem bar_does_not_come_back : ∃ s,
    parseSuiteMd .plain "# Nightly\n- check a|b\n" "nightly.md" = .ok s ∧
      ¬ RoundTrips .plain plainBuiltins s := by
  have hread : (parseSuiteMd .plain "# Nightly\n- check a|b\n" "nightly.md").toOption.map
      (fun s => (s.items.map (·.title), backTitles .plain plainBuiltins s)) =
        some (["check a|b"], some ["check a/b"]) := by decide +kernel
  cases hparse : parseSuiteMd .plain "# Nightly\n- check a|b\n" "nightly.md" with
  | error e => simp [hparse, Except.toOption] at hread
  | ok s =>
    simp only [hparse, Except.toOption, Option.map_some, Option.some.injEq, Prod.mk.injEq] at hread
    refine ⟨s, rfl, fun hround => ?_⟩
    have htitles := hround.backTitles
    rw [hread.1, hread.2] at htitles
    exact absurd htitles (by decide)

/-- A plain bullet: the condition decides whether its suite comes back. -/
theorem plain_roundTrips_iff : ∃ s,
    parseSuiteMd .plain "# Nightly\n- check the fans\n" "nightly.md" = .ok s ∧
      (RoundTrips .plain plainBuiltins s ↔
        Text.strip s.title.toList ≠ [] ∧ ∀ item ∈ s.items, Stable .plain plainBuiltins item) := by
  have hread : (parseSuiteMd .plain "# Nightly\n- check the fans\n" "nightly.md").toOption.isSome =
      true := by decide +kernel
  cases hparse : parseSuiteMd .plain "# Nightly\n- check the fans\n" "nightly.md" with
  | error e => simp [hparse, Except.toOption] at hread
  | ok s =>
    exact ⟨s, rfl, roundTrips_iff .plain plainBuiltins s (Or.inl ⟨_, _, hparse⟩)⟩

end SuiteText

end Slas
