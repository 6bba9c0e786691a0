/-
  Slas.Validation.SuiteItems

  What the items of a suite that was read look like: which characters they have
  (`Drafted.within`), and that their titles, actions and parameters are tidy
  (`Drafted.tidy`).
-/

import Slas.Validation.SuiteText

namespace Slas

namespace SuiteText

open Lines (splitlines)
open Patterns (search sub)
open Text (stripBy Trimmed)

variable {U : Unicode} {cols : Columns} {width n : Nat} {row : List (List Char)}
  {rows : List (List (List Char))} {lines : List (List Char)} {draft : Draft} {item : SuiteItem}
  {items : List SuiteItem} {suite : Suite} {cs : List Char} {c : Char}

/-! ## Where items come from -/

/-- The item says what the draft says. -/
structure Draft.Gives (draft : Draft) (item : SuiteItem) : Prop where
  title : item.title.toList = draft.title
  action : item.action.toList = draft.action
  params : item.params = draft.params
  cycles : item.cycles = draft.cycles
  approved : item.approved = draft.approved

theorem Draft.item_gives (h : draft.item n = .ok item) : draft.Gives item := by
  unfold Draft.item at h
  split_ifs at h
  cases h
  constructor <;> simp

/-- What a row of a table says, or a bullet, all of whose characters have the property. -/
inductive Drafted (U : Unicode) (Q : Char → Prop) : Draft → Prop where
  | row {cols : Columns} {width : Nat} {row : List (List Char)} {draft : Draft} :
      (∀ cell ∈ row, ∀ c ∈ cell, Q c) → draftOfRow U cols width row = .ok (some draft) →
        Drafted U Q draft
  | bullet {raw : List Char} {draft : Draft} :
      (∀ c ∈ raw, Q c) → draftOfBullet U raw = .ok draft → Drafted U Q draft

theorem itemsOfRows_mem (h : itemsOfRows U cols width n rows = .ok items) (hitem : item ∈ items) :
    ∃ row ∈ rows, ∃ draft, draftOfRow U cols width row = .ok (some draft) ∧
      draft.Gives item := by
  induction rows generalizing n items with
  | nil =>
    cases h
    simp at hitem
  | cons row rows ih =>
    rw [itemsOfRows] at h
    cases hdraft : draftOfRow U cols width row with
    | error e => simp [hdraft, bind, Except.bind] at h
    | ok found =>
      cases found with
      | none =>
        rw [hdraft] at h
        obtain ⟨row', hmem, hrest⟩ := ih h hitem
        exact ⟨row', List.mem_cons_of_mem _ hmem, hrest⟩
      | some draft =>
        simp only [hdraft, bind, Except.bind] at h
        cases hmade : draft.item n with
        | error e => simp [hmade] at h
        | ok made =>
          cases hrest : itemsOfRows U cols width (n + 1) rows with
          | error e => simp [hmade, hrest] at h
          | ok rest =>
            simp only [hmade, hrest, pure, Except.pure, Except.ok.injEq] at h
            subst h
            rcases List.mem_cons.mp hitem with rfl | hitem
            · exact ⟨row, List.mem_cons_self, draft, hdraft, Draft.item_gives hmade⟩
            · obtain ⟨row', hmem, hgives⟩ := ih hrest hitem
              exact ⟨row', List.mem_cons_of_mem _ hmem, hgives⟩

theorem itemsFromRows_mem {source : String} (h : itemsFromRows U rows source = .ok items)
    (hitem : item ∈ items) : ∃ cols width, ∃ row ∈ rows, ∃ draft,
      draftOfRow U cols width row = .ok (some draft) ∧ draft.Gives item := by
  cases rows with
  | nil =>
    cases h
    simp at hitem
  | cons first rest =>
    rw [itemsFromRows] at h
    split_ifs at h
    obtain ⟨row, hmem, hdraft⟩ := itemsOfRows_mem h hitem
    exact ⟨_, _, row, List.mem_cons_of_mem _ hmem, hdraft⟩

theorem itemsOfBullets_mem (h : itemsOfBullets U n lines = .ok items) (hitem : item ∈ items) :
    ∃ line ∈ lines, ∃ raw draft, bulletAt U line = some raw ∧
      draftOfBullet U raw = .ok draft ∧ draft.Gives item := by
  induction lines generalizing n items with
  | nil =>
    cases h
    simp at hitem
  | cons line lines ih =>
    rw [itemsOfBullets] at h
    cases hbullet : bulletAt U line with
    | none =>
      rw [hbullet] at h
      obtain ⟨line', hmem, hrest⟩ := ih h hitem
      exact ⟨line', List.mem_cons_of_mem _ hmem, hrest⟩
    | some raw =>
      simp only [hbullet, bind, Except.bind] at h
      cases hdraft : draftOfBullet U raw with
      | error e => simp [hdraft] at h
      | ok draft =>
        cases hmade : draft.item n with
        | error e => simp [hdraft, hmade] at h
        | ok made =>
          cases hrest : itemsOfBullets U (n + 1) lines with
          | error e => simp [hdraft, hmade, hrest] at h
          | ok rest =>
            simp only [hdraft, hmade, hrest, pure, Except.pure, Except.ok.injEq] at h
            subst h
            rcases List.mem_cons.mp hitem with rfl | hitem
            · exact ⟨line, List.mem_cons_self, raw, draft, hbullet, hdraft,
                Draft.item_gives hmade⟩
            · obtain ⟨line', hmem, hgives⟩ := ih hrest hitem
              exact ⟨line', List.mem_cons_of_mem _ hmem, hgives⟩

theorem makeSuite_items {title : List Char} (h : makeSuite title items = .ok suite) :
    suite.items = items ∧ title ≠ [] := by
  unfold makeSuite at h
  split_ifs at h with hvalid
  cases h
  exact ⟨rfl, hvalid.1⟩

theorem markerAt_subset {line rest : List Char} (h : markerAt U line = some rest) : rest ⊆ line := by
  have hdigits : ∀ {c : Char} {cs g : List Char} {d : Char} {tail : List Char},
      digitsAt U (c :: cs) = some (g, d :: tail) → tail ⊆ c :: cs := by
    intro c cs g d tail hat x hx
    unfold digitsAt at hat
    split_ifs at hat
    simp only [Option.some.injEq, Prod.mk.injEq] at hat
    exact (List.dropWhile_sublist _).subset (hat.2 ▸ List.mem_cons_of_mem d hx)
  cases line with
  | nil => simp [markerAt] at h
  | cons c cs =>
    rw [markerAt] at h
    split_ifs at h
    · cases h
      exact List.subset_cons_self ..
    · split at h
      · rename_i hat
        cases h
        exact hdigits hat
      · rename_i hat
        cases h
        exact hdigits hat
      · cases h

theorem bulletAt_subset {line raw : List Char} (h : bulletAt U line = some raw) : raw ⊆ line := by
  obtain ⟨rest, hmarker, hbody⟩ := Option.bind_eq_some_iff.mp h
  have hrest : rest ⊆ line := fun c hc =>
    (List.dropWhile_sublist _).subset (markerAt_subset hmarker hc)
  dsimp only at hbody
  split at hbody
  · cases hbody
  · rename_i blank blanks hblanks
    split_ifs at hbody with hempty
    · cases hbody
      exact fun c hc => hrest ((List.dropWhile_sublist _).subset
        ((List.rdropWhile_prefix _ _).subset hc))
    · obtain ⟨c, hlast, rfl⟩ := Option.map_eq_some_iff.mp hbody
      have hmem : c ∈ rest.takeWhile Lines.isSpace := by
        rw [hblanks]
        exact List.mem_cons_of_mem _ (List.mem_of_getLast? hlast)
      intro d hd
      rw [List.mem_singleton.mp hd]
      exact hrest ((List.takeWhile_sublist _).subset hmem)

/-! ## Documents -/

theorem parseSuiteMd_ok {text source : String} : parseSuiteMd U text source = .ok suite ↔
    Text.strip text.toList ≠ [] ∧ ∃ items, itemsOfLines U (splitlines text.toList) source = .ok items ∧
      items ≠ [] ∧ makeSuite (headingOf (splitlines text.toList) source) (items.take 200) =
        .ok suite := by
  rw [parseSuiteMd]
  by_cases hblank : Text.strip text.toList = []
  · simp [hblank]
  · simp only [if_neg hblank, bind, Except.bind]
    cases hitems : itemsOfLines U (splitlines text.toList) source with
    | error e => simp [hblank]
    | ok items =>
      by_cases hnone : items = []
      · simp [hnone]
      · simp [hnone, hblank]

theorem itemsOfLines_ok {source : String} (h : itemsOfLines U lines source = .ok items) :
    (itemsFromRows U (rowsFromMarkdownTable (lines.filter isTableLine)) source = .ok items ∧
      items ≠ []) ∨ itemsOfBullets U 1 lines = .ok items := by
  simp only [itemsOfLines, bind, Except.bind] at h
  by_cases hnone : lines.filter isTableLine = []
  · simp only [hnone, if_true, pure, Except.pure] at h
    exact Or.inr h
  · simp only [hnone, if_false] at h
    cases htable : itemsFromRows U (rowsFromMarkdownTable (lines.filter isTableLine)) source with
    | error e => simp [htable] at h
    | ok tabled =>
      simp only [htable] at h
      split_ifs at h with hempty
      · exact Or.inr h
      · simp only [pure, Except.pure, Except.ok.injEq] at h
        subst h
        exact Or.inl ⟨rfl, hempty⟩

/-- The cells of a line have no line boundaries, and no bars. -/
theorem unbroken_of_cells {line : List Char} (h : Lines.Unbroken line) :
    ∀ cell ∈ cellsOf line, ∀ c ∈ cell, Lines.isLineBreak c = false ∧ c ≠ '|' := by
  intro cell hcell c hc
  obtain ⟨piece, hpiece, rfl⟩ := List.mem_map.mp hcell
  obtain ⟨hin, hbar⟩ := Text.mem_splitOn hpiece c (Text.mem_of_mem_stripBy hc)
  exact ⟨h c (Text.mem_of_mem_stripBy (Text.mem_of_mem_stripBy hin)), hbar⟩

theorem unbroken_of_rows (hlines : ∀ line ∈ lines, Lines.Unbroken line) :
    ∀ row ∈ rowsFromMarkdownTable lines, ∀ cell ∈ row, ∀ c ∈ cell,
      Lines.isLineBreak c = false ∧ c ≠ '|' := by
  intro row hrow
  obtain ⟨line, hline, rfl⟩ := List.mem_map.mp (List.mem_filter.mp hrow).1
  exact unbroken_of_cells (hlines line (List.mem_filter.mp hline).1)

theorem itemsFromRows_drafted {source : String} (hlines : ∀ line ∈ lines, Lines.Unbroken line)
    (h : itemsFromRows U (rowsFromMarkdownTable lines) source = .ok items) (hitem : item ∈ items) :
    ∃ draft, Drafted U (fun c => Lines.isLineBreak c = false ∧ c ≠ '|') draft ∧
      draft.Gives item := by
  obtain ⟨cols, width, row, hrow, draft, hdraft, hgives⟩ := itemsFromRows_mem h hitem
  exact ⟨draft, .row (unbroken_of_rows hlines row hrow) hdraft, hgives⟩

theorem Drafted.imp {P Q : Char → Prop} (h : Drafted U P draft) (himp : ∀ c, P c → Q c) :
    Drafted U Q draft := by
  cases h with
  | row hcells hdraft => exact .row (fun cell hcell c hc => himp c (hcells cell hcell c hc)) hdraft
  | bullet hraw hdraft => exact .bullet (fun c hc => himp c (hraw c hc)) hdraft

/-- The items of a document have no line boundaries. -/
theorem parseSuiteMd_drafted {text source : String} (h : parseSuiteMd U text source = .ok suite)
    (hitem : item ∈ suite.items) :
    ∃ draft, Drafted U (fun c => Lines.isLineBreak c = false) draft ∧ draft.Gives item := by
  obtain ⟨-, items, hitems, -, hmade⟩ := parseSuiteMd_ok.mp h
  have hin : item ∈ items := by
    rw [(makeSuite_items hmade).1] at hitem
    exact List.mem_of_mem_take hitem
  have hlines : ∀ line ∈ splitlines text.toList, Lines.Unbroken line :=
    fun line hline => (Lines.mem_line _ line hline).1
  rcases itemsOfLines_ok hitems with ⟨htable, -⟩ | hbullets
  · obtain ⟨draft, hdraft, hgives⟩ := itemsFromRows_drafted
      (fun line hline => hlines line (List.mem_filter.mp hline).1) htable hin
    exact ⟨draft, hdraft.imp fun c hc => hc.1, hgives⟩
  · obtain ⟨line, hline, raw, draft, hraw, hdraft, hgives⟩ := itemsOfBullets_mem hbullets hin
    exact ⟨draft, .bullet (fun c hc => hlines line hline c (bulletAt_subset hraw hc)) hdraft,
      hgives⟩

theorem parseSuiteRows_drafted {sheet : List (List String)} {source : String}
    (h : parseSuiteRows U sheet source = .ok suite) (hitem : item ∈ suite.items) :
    ∃ draft, Drafted U (fun _ => True) draft ∧ draft.Gives item := by
  simp only [parseSuiteRows, bind, Except.bind] at h
  cases hitems : itemsFromRows U (sheet.map fun row => row.map String.toList) source with
  | error e => simp [hitems] at h
  | ok items =>
    simp only [hitems] at h
    split_ifs at h
    rw [(makeSuite_items h).1] at hitem
    obtain ⟨cols, width, row, -, draft, hdraft, hgives⟩ := itemsFromRows_mem hitems hitem
    exact ⟨draft, .row (fun _ _ _ _ => trivial) hdraft, hgives⟩

/-! ## Characters -/

theorem isMark_of_isSpace (h : Lines.isSpace c = true) : isMark c = true := by
  simp [isMark, h]

theorem mem_uncounted (h : c ∈ uncounted U cs) : c ∈ cs := by
  have hsub : ∀ {m : Patterns.Pattern} {cs : List Char}, c ∈ sub m [] cs → c ∈ cs := by
    intro m cs hc
    exact (Patterns.mem_sub hc).elim (fun hnew => absurd hnew List.not_mem_nil) And.left
  exact hsub (hsub (hsub h))

/-- A title has the characters of the text, and blanks. -/
theorem mem_cleanTitle (h : c ∈ cleanTitle U cs) : c = ' ' ∨ c ∈ cs := by
  rw [cleanTitle] at h
  split_ifs at h
  · exact Or.inr (mem_uncounted (Text.mem_of_mem_stripBy h))
  · rcases Patterns.mem_sub (Text.mem_of_mem_stripBy h) with hnew | ⟨hin, -⟩
    · exact Or.inl (List.mem_singleton.mp hnew)
    · exact Or.inr (mem_uncounted hin)

theorem mem_titleOf {title action : List Char} (h : c ∈ titleOf U title action) :
    c = ' ' ∨ c ∈ title ∨ c ∈ action := by
  rw [titleOf] at h
  split_ifs at h
  · exact Or.inr (Or.inr (Text.mem_of_mem_stripBy (List.mem_of_mem_take h)))
  · exact (mem_cleanTitle (List.mem_of_mem_take h)).imp id Or.inl

theorem mem_pieces {piece : List Char} (h : piece ∈ pieces cs) :
    ∀ c ∈ piece, c ∈ cs ∧ c ≠ ';' ∧ c ≠ ',' := by
  have hsplit : ∀ {p}, p ∈ cs.splitOnP (fun c => c = ';' || c = ',') →
      ∀ c ∈ p, c ∈ cs ∧ c ≠ ';' ∧ c ≠ ',' :=
    fun hp c hc => ⟨(Text.mem_splitOnP hp c hc).1, by simpa using (Text.mem_splitOnP hp c hc).2⟩
  unfold pieces at h
  split at h
  · simp at h
  · rename_i first rest hpieces
    rcases List.mem_cons.mp h with rfl | h
    · exact hsplit (by rw [hpieces]; exact List.mem_cons_self)
    · obtain ⟨p, hp, rfl⟩ := List.mem_map.mp h
      exact fun c hc => hsplit (by rw [hpieces]; exact List.mem_cons_of_mem _ hp) c
        ((List.dropWhile_sublist _).subset hc)

/-- The only marks of a key are those of the text. -/
theorem mem_keyOf (h : c ∈ keyOf U cs) (hmark : isMark c = true) : c ∈ cs := by
  obtain ⟨d, hd, heq⟩ := List.mem_map.mp h
  split_ifs at heq with hblank
  · rw [← heq] at hmark
    exact absurd hmark (by decide)
  · rw [← heq] at hmark ⊢
    exact Text.mem_of_mem_stripBy (U.lower_mark _ d hd hmark)

/-- The digits that a pattern finds are digits, and not none. -/
theorem digitsAt_spec {g rest : List Char} (h : digitsAt U cs = some (g, rest)) :
    g ≠ [] ∧ ∀ c ∈ g, U.isDigit c = true := by
  unfold digitsAt at h
  split_ifs at h with hnone
  simp only [Option.some.injEq, Prod.mk.injEq] at h
  rw [← h.1]
  exact ⟨hnone, fun c hc => List.mem_takeWhile_imp hc⟩

theorem settle_digits {digits : List Char} (h : search (settleAt U) cs = some digits) :
    digits ≠ [] ∧ ∀ c ∈ digits, U.isDigit c = true := by
  refine Patterns.search_spec (P := fun g => g ≠ [] ∧ ∀ c ∈ g, U.isDigit c = true) ?_ h
  intro prev cs g rest hmatch
  obtain ⟨after, -, hafter⟩ := Option.bind_eq_some_iff.mp hmatch
  obtain ⟨found, hfound, hend⟩ := Option.bind_eq_some_iff.mp hafter
  obtain ⟨tail, -, hpair⟩ := Option.map_eq_some_iff.mp hend
  cases hpair
  exact digitsAt_spec hfound

/-! ## Parameters -/

/-- Each parameter has the property, and no name comes twice. -/
def Params (P : List Char → List Char → Prop) (params : List (String × String)) : Prop :=
  (Dict.keys params).Nodup ∧ ∀ p ∈ params, P p.1.toList p.2.toList

theorem params_addPair {P : List Char → List Char → Prop} {params : List (String × String)}
    {piece : List Char} (h : Params P params)
    (hP : '=' ∈ piece → Text.strip (Text.partition '=' piece).1 ≠ [] →
      P (keyOf U (Text.partition '=' piece).1) (Text.strip (Text.partition '=' piece).2)) :
    Params P (addPair U params piece) := by
  unfold addPair
  dsimp only
  split_ifs with hpair
  · refine ⟨Dict.nodup_keys_set h.1, fun p hp => ?_⟩
    rcases Dict.mem_set hp with rfl | hp
    · simpa using hP hpair.1 hpair.2
    · exact h.2 p hp
  · exact h

theorem params_settle {P : List Char → List Char → Prop}
    (hsettle : ∀ digits, digits ≠ [] → (∀ c ∈ digits, U.isDigit c = true) →
      P "settle_s".toList digits) (text : List Char) : Params P (settleParams U text) := by
  unfold settleParams
  split
  · rename_i digits hfound
    obtain ⟨hne, hdigits⟩ := settle_digits hfound
    refine ⟨by simp [Dict.keys], fun p hp => ?_⟩
    rw [List.mem_singleton.mp hp]
    simpa using hsettle digits hne hdigits
  · exact ⟨by simp [Dict.keys], by simp⟩

/-- The parameters of a row: the settle time, and what its parts say. -/
theorem params_foldl {P : List Char → List Char → Prop} {params : List (String × String)}
    {parts : List (List Char)} (h : Params P params)
    (hP : ∀ piece ∈ parts, '=' ∈ piece → Text.strip (Text.partition '=' piece).1 ≠ [] →
      P (keyOf U (Text.partition '=' piece).1) (Text.strip (Text.partition '=' piece).2)) :
    Params P (parts.foldl (addPair U) params) := by
  induction parts generalizing params with
  | nil => exact h
  | cons piece rest ih =>
    exact ih (params_addPair h (hP piece List.mem_cons_self))
      (fun p hp => hP p (List.mem_cons_of_mem _ hp))

theorem mem_cell {i k : Nat} (h : c ∈ (row ++ List.replicate k []).getD i []) :
    ∃ cell ∈ row, c ∈ cell := by
  rw [List.getD_eq_getElem?_getD] at h
  cases hcell : (row ++ List.replicate k [])[i]? with
  | none => simp [hcell] at h
  | some cell =>
    rw [hcell, Option.getD_some] at h
    rcases List.mem_append.mp (List.mem_of_getElem? hcell) with hin | hin
    · exact ⟨cell, hin, h⟩
    · rw [(List.mem_replicate.mp hin).2] at h
      exact absurd h List.not_mem_nil

theorem mem_cellAt {k : Nat} {col : Option Nat} {default : List Char}
    (h : c ∈ cellAt (row ++ List.replicate k []) col default) :
    c ∈ default ∨ ∃ cell ∈ row, c ∈ cell := by
  cases col with
  | none => exact Or.inl h
  | some i => exact Or.inr (mem_cell h)

/-- What a draft of a row is made of. -/
theorem draftOfRow_ok (h : draftOfRow U cols width row = .ok (some draft)) :
    ∃ title action paramsText text : List Char,
      (∀ c, c ∈ title ∨ c ∈ action ∨ c ∈ paramsText → ∃ cell ∈ row, c ∈ cell) ∧
      draft.title = titleOf U title action ∧
      draft.action = Text.strip (if action = [] then title else action) ∧
      draft.params = (pieces paramsText).foldl (addPair U) (settleParams U text) := by
  unfold draftOfRow at h
  dsimp only at h
  split at h
  · cases h
  · simp only [bind, Except.bind] at h
    split at h
    · cases h
    · split at h
      · cases h
      · cases h
        refine ⟨_, _, _, _, ?_, rfl, rfl, rfl⟩
        rintro c (hc | hc | hc)
        · exact mem_cell hc
        · exact (mem_cellAt hc).elim mem_cell id
        · exact (mem_cellAt hc).elim (fun hnil => absurd hnil List.not_mem_nil) id

theorem draftOfBullet_ok {raw : List Char} (h : draftOfBullet U raw = .ok draft) :
    draft.title = (cleanTitle U (sub (approvedAt U) [] raw)).take 200 ∧
      draft.action = cleanTitle U (sub (approvedAt U) [] raw) ∧
      draft.params = settleParams U raw := by
  simp only [draftOfBullet, bind, Except.bind] at h
  split at h
  · cases h
  · cases h
    exact ⟨rfl, rfl, rfl⟩

/-! ## Items within a class of characters -/

/-- All characters of an item have the property. -/
structure Within (Q : Char → Prop) (item : SuiteItem) : Prop where
  title : ∀ c ∈ item.title.toList, Q c
  action : ∀ c ∈ item.action.toList, Q c
  params : ∀ p ∈ item.params, (∀ c ∈ p.1.toList, Q c) ∧ ∀ c ∈ p.2.toList, Q c

/-- An item has the characters of what it was read from, and no marks besides. -/
theorem Drafted.within {Q : Char → Prop} (h : Drafted U Q draft) (hgives : draft.Gives item)
    (hQ : ∀ c, isMark c = false ∨ c = ' ' → Q c) : Within Q item := by
  have hsettle : ∀ digits : List Char, digits ≠ [] → (∀ c ∈ digits, U.isDigit c = true) →
      (∀ c ∈ "settle_s".toList, Q c) ∧ ∀ c ∈ digits, Q c := by
    refine fun digits _ hdigits => ⟨fun c hc => hQ c (Or.inl ?_), fun c hc => hQ c (Or.inl ?_)⟩
    · have hall : "settle_s".toList.all (fun c => !isMark c) = true := by decide
      simpa using List.all_eq_true.mp hall c hc
    · exact U.isDigit_mark c (hdigits c hc)
  cases h with
  | row hcells hdraft =>
    obtain ⟨title, action, paramsText, text, hsource, htitle, haction, hparams⟩ :=
      draftOfRow_ok hdraft
    have hin : ∀ c, c ∈ title ∨ c ∈ action ∨ c ∈ paramsText → Q c := fun c hc => by
      obtain ⟨cell, hcell, hmem⟩ := hsource c hc
      exact hcells cell hcell c hmem
    refine ⟨fun c hc => ?_, fun c hc => ?_, ?_⟩
    · rw [hgives.title, htitle] at hc
      rcases mem_titleOf hc with rfl | hc | hc
      · exact hQ _ (Or.inr rfl)
      · exact hin c (Or.inl hc)
      · exact hin c (Or.inr (Or.inl hc))
    · rw [hgives.action, haction] at hc
      have hmem := Text.mem_of_mem_stripBy hc
      split_ifs at hmem
      · exact hin c (Or.inl hmem)
      · exact hin c (Or.inr (Or.inl hmem))
    · rw [hgives.params, hparams]
      refine (params_foldl (P := fun k v => (∀ c ∈ k, Q c) ∧ ∀ c ∈ v, Q c)
        (params_settle hsettle text) fun piece hpiece _ _ => ⟨fun c hc => ?_, fun c hc => ?_⟩).2
      · by_cases hmark : isMark c = true
        · have hmem := Text.mem_partition_fst (mem_keyOf hc hmark)
          exact hin c (Or.inr (Or.inr (mem_pieces hpiece c hmem.1).1))
        · exact hQ c (Or.inl (by simpa using hmark))
      · have hmem := Text.mem_partition_snd (Text.mem_of_mem_stripBy hc)
        exact hin c (Or.inr (Or.inr (mem_pieces hpiece c hmem).1))
  | bullet hraw hdraft =>
    rename_i raw
    obtain ⟨htitle, haction, hparams⟩ := draftOfBullet_ok hdraft
    have hclean : ∀ c ∈ cleanTitle U (sub (approvedAt U) [] raw), Q c := fun c hc => by
      rcases mem_cleanTitle hc with rfl | hc
      · exact hQ _ (Or.inr rfl)
      · exact hraw c ((Patterns.mem_sub hc).elim (fun h => absurd h List.not_mem_nil) And.left)
    refine ⟨fun c hc => ?_, fun c hc => ?_, ?_⟩
    · rw [hgives.title, htitle] at hc
      exact hclean c (List.mem_of_mem_take hc)
    · rw [hgives.action, haction] at hc
      exact hclean c hc
    · rw [hgives.params, hparams]
      exact (params_settle (P := fun k v => (∀ c ∈ k, Q c) ∧ ∀ c ∈ v, Q c) hsettle raw).2

/-! ## Items in good order -/

theorem underscored_trimmed (h : Trimmed Lines.isSpace cs) :
    Trimmed Lines.isSpace (underscored cs) := by
  have hend : ∀ d, Lines.isSpace d = false →
      Lines.isSpace (if d = ' ' then '_' else d) = false := by
    intro d hd
    split_ifs
    · decide
    · exact hd
  refine ⟨fun c hc => ?_, fun c hc => ?_⟩
  · rw [underscored, List.head?_map, Option.mem_def, Option.map_eq_some_iff] at hc
    obtain ⟨d, hd, rfl⟩ := hc
    exact hend d (h.1 d hd)
  · rw [underscored, List.getLast?_map, Option.mem_def, Option.map_eq_some_iff] at hc
    obtain ⟨d, hd, rfl⟩ := hc
    exact hend d (h.2 d hd)

theorem underscored_underscored : underscored (underscored cs) = underscored cs := by
  rw [underscored, underscored, List.map_map]
  refine List.map_congr_left fun c _ => ?_
  by_cases hc : c = ' ' <;> simp [hc]

theorem trimmed_keyOf (U : Unicode) (cs : List Char) : Trimmed Lines.isSpace (keyOf U cs) :=
  underscored_trimmed (U.lower_trimmed _ (Text.trimmed_stripBy Lines.isSpace cs))

/-- A key is a key already. -/
theorem keyOf_keyOf (U : Unicode) (cs : List Char) : keyOf U (keyOf U cs) = keyOf U cs := by
  have hstrip : Text.strip (keyOf U cs) = keyOf U cs := Text.stripBy_of_trimmed (trimmed_keyOf U cs)
  rw [keyOf, hstrip, keyOf, U.lower_lower, underscored_underscored]

/-- A name and a value as they are read back. -/
structure TidyPair (U : Unicode) (key value : List Char) : Prop where
  key_ne : key ≠ []
  stable : keyOf U key = key
  key_plain : ∀ c ∈ key, c ≠ ';' ∧ c ≠ ',' ∧ c ≠ '='
  stripped : Text.strip value = value
  value_plain : ∀ c ∈ value, c ≠ ';' ∧ c ≠ ','

structure Tidy (U : Unicode) (item : SuiteItem) : Prop where
  title : ∀ c ∈ item.title.toList.head?, Lines.isSpace c = false
  action : Text.strip item.action.toList = item.action.toList
  params : Params (TidyPair U) item.params

theorem tidyPair_settle {digits : List Char} (hdigits : ∀ c ∈ digits, U.isDigit c = true) :
    TidyPair U "settle_s".toList digits where
  key_ne := by decide
  stable := by
    have hstrip : Text.strip "settle_s".toList = "settle_s".toList := by decide
    rw [keyOf, hstrip, U.lower_ascii _ (ascii_of_all (by decide))]
    decide
  key_plain := by
    have hall : ("settle_s".toList.all fun c => decide (c ≠ ';' ∧ c ≠ ',' ∧ c ≠ '=')) = true := by
      decide
    exact fun c hc => of_decide_eq_true (List.all_eq_true.mp hall c hc)
  stripped := Text.stripBy_of_trimmed (Text.trimmed_of_forall fun c hc => by
    have hmark := U.isDigit_mark c (hdigits c hc)
    simp only [isMark, Bool.or_eq_false_iff] at hmark
    exact hmark.1.1.1.1)
  value_plain c hc := by
    have hmark := U.isDigit_mark c (hdigits c hc)
    simp only [isMark, Bool.or_eq_false_iff, decide_eq_false_iff_not] at hmark
    exact ⟨hmark.1.1.2, hmark.1.2⟩

theorem tidyPair_piece {piece : List Char} (hpiece : piece ∈ pieces cs)
    (hkey : Text.strip (Text.partition '=' piece).1 ≠ []) :
    TidyPair U (keyOf U (Text.partition '=' piece).1) (Text.strip (Text.partition '=' piece).2) where
  key_ne hnil := by
    have hlower : U.lower (Text.strip (Text.partition '=' piece).1) = [] :=
      List.map_eq_nil_iff.mp hnil
    exact hkey (U.lower_nil _ hlower)
  stable := keyOf_keyOf U _
  key_plain c hc := by
    by_cases hmark : isMark c = true
    · obtain ⟨hin, hne⟩ := Text.mem_partition_fst (mem_keyOf hc hmark)
      obtain ⟨-, hsemi, hcomma⟩ := mem_pieces hpiece c hin
      exact ⟨hsemi, hcomma, hne⟩
    · refine ⟨?_, ?_, ?_⟩ <;> rintro rfl <;> exact hmark (by decide)
  stripped := Text.stripBy_stripBy
  value_plain c hc :=
    (mem_pieces hpiece c (Text.mem_partition_snd (Text.mem_of_mem_stripBy hc))).2

theorem trimmed_cleanTitle (U : Unicode) (cs : List Char) :
    Trimmed Lines.isSpace (cleanTitle U cs) := by
  rw [cleanTitle]
  split_ifs
  · exact Text.trimmed_stripBy _ _
  · have hends := Text.trimmed_stripBy isTrim (sub Patterns.spaces [' '] (uncounted U cs))
    -- the only white space that is left is a blank, and blanks are trimmed
    have hnot : ∀ c ∈ stripBy isTrim (sub Patterns.spaces [' '] (uncounted U cs)),
        isTrim c = false → Lines.isSpace c = false := by
      intro c hc htrim
      by_contra hspace
      rw [Patterns.eq_blank_of_mem (Text.mem_of_mem_stripBy hc) (by simpa using hspace)] at htrim
      exact absurd htrim (by decide)
    exact ⟨fun c hc => hnot c (List.mem_of_head? hc) (hends.1 c hc),
      fun c hc => hnot c (List.mem_of_getLast? hc) (hends.2 c hc)⟩

theorem head_take {k : Nat} (h : ∀ c ∈ cs.head?, Lines.isSpace c = false) :
    ∀ c ∈ (cs.take k).head?, Lines.isSpace c = false := by
  intro c hc
  cases cs with
  | nil => simp at hc
  | cons d ds =>
    cases k with
    | zero => simp at hc
    | succ k => exact h c (by simpa using hc)

/-- What was read is in good order. -/
theorem Drafted.tidy {Q : Char → Prop} (h : Drafted U Q draft) (hgives : draft.Gives item) :
    Tidy U item := by
  cases h with
  | row _ hdraft =>
    obtain ⟨title, action, paramsText, text, -, htitle, haction, hparams⟩ := draftOfRow_ok hdraft
    refine ⟨?_, ?_, ?_⟩
    · rw [hgives.title, htitle, titleOf]
      split_ifs
      · exact head_take (Text.trimmed_stripBy _ action).1
      · exact head_take (trimmed_cleanTitle U title).1
    · rw [hgives.action, haction]
      exact Text.stripBy_stripBy
    · rw [hgives.params, hparams]
      exact params_foldl (params_settle (fun digits _ hdigits => tidyPair_settle hdigits) text)
        fun piece hpiece _ hkey => tidyPair_piece hpiece hkey
  | @bullet raw _ _ hdraft =>
    obtain ⟨htitle, haction, hparams⟩ := draftOfBullet_ok hdraft
    have hclean := trimmed_cleanTitle U (sub (approvedAt U) [] raw)
    refine ⟨?_, ?_, ?_⟩
    · rw [hgives.title, htitle]
      exact head_take hclean.1
    · rw [hgives.action, haction]
      exact Text.stripBy_of_trimmed hclean
    · rw [hgives.params, hparams]
      exact params_settle (fun digits _ hdigits => tidyPair_settle hdigits) raw

end SuiteText

end Slas
