/-
  Slas.Validation.Intake

  How the reading of a suite fails.

  Rows and bullets are read one after another and numbered from 1 (`readAll`).  What is
  not an item escapes as the validation error of an item: `RowFine` and `BulletFine` say
  what a row and a bullet must be, `MdFine` and `SheetFine` what a document and a
  worksheet must be, and `intake_iff` adds the compilation of what was read.
-/

import Slas.Validation.Faithful
import Slas.Validation.RoundTrip

namespace Slas

namespace SuiteText

open Lines (splitlines)
open Patterns (search sub)

/-- A result, or the reader's own error. -/
def SuiteFailure.OwnWords {α : Type} : Except SuiteFailure α → Prop
  | .error (.raised _) => False
  | _ => True

open SuiteFailure (OwnWords)

theorem SuiteFailure.OwnWords.of_error {α β : Type} {failure : SuiteFailure}
    (h : OwnWords (.error failure : Except SuiteFailure α)) :
    OwnWords (.error failure : Except SuiteFailure β) := by
  cases failure with
  | refused message => trivial
  | raised e => exact h

/-! ## One after another -/

section ReadAll

variable {α : Type}

/-- The items of the elements that are not blank, numbered from `n` on. -/
def readAll (read : Nat → α → Except SuiteFailure (Option SuiteItem)) :
    Nat → List α → Except SuiteFailure (List SuiteItem)
  | _, [] => .ok []
  | n, x :: xs =>
    match read n x with
    | .error e => .error e
    | .ok none => readAll read n xs
    | .ok (some item) => (readAll read (n + 1) xs).map (item :: ·)

/-- A reader skips what is blank, and takes what is fine; anything else escapes. -/
structure Reader (read : Nat → α → Except SuiteFailure (Option SuiteItem)) (blank : α → Bool)
    (Fine : α → Prop) : Prop where
  skips : ∀ n x, blank x = true → read n x = .ok none
  takes : ∀ n x, 1 ≤ n → blank x = false → Fine x → ∃ item, read n x = .ok (some item) ∧ item.n = n
  raises : ∀ n x, blank x = false → ¬ Fine x → ∃ message, read n x = .error (.raised message)

variable {read : Nat → α → Except SuiteFailure (Option SuiteItem)} {blank : α → Bool}
  {Fine : α → Prop} {n : Nat} {xs : List α}

theorem readAll_ok (R : Reader read blank Fine) (hn : 1 ≤ n)
    (h : ∀ x ∈ xs, blank x = false → Fine x) :
    ∃ items, readAll read n xs = .ok items ∧
      items.map (·.n) = List.range' n (xs.filter fun x => !blank x).length := by
  induction xs generalizing n with
  | nil => exact ⟨[], rfl, rfl⟩
  | cons x xs ih =>
    have hrest : ∀ x ∈ xs, blank x = false → Fine x :=
      fun y hy => h y (List.mem_cons_of_mem x hy)
    rw [readAll]
    cases hblank : blank x with
    | true =>
      obtain ⟨items, hitems, hnumbers⟩ := ih hn hrest
      rw [R.skips n x hblank]
      exact ⟨items, hitems, by simp [hblank, hnumbers]⟩
    | false =>
      obtain ⟨item, hitem, hnumber⟩ := R.takes n x hn hblank (h x List.mem_cons_self hblank)
      obtain ⟨items, hitems, hnumbers⟩ := ih (Nat.le_succ_of_le hn) hrest
      rw [hitem]
      dsimp only
      rw [hitems]
      refine ⟨item :: items, rfl, ?_⟩
      simp [hblank, hnumbers, hnumber, List.range'_succ]

theorem readAll_raised (R : Reader read blank Fine) (hn : 1 ≤ n)
    (h : ¬ ∀ x ∈ xs, blank x = false → Fine x) :
    ∃ message, readAll read n xs = .error (.raised message) := by
  induction xs generalizing n with
  | nil => exact absurd (by simp) h
  | cons x xs ih =>
    rw [readAll]
    cases hblank : blank x with
    | true =>
      rw [R.skips n x hblank]
      exact ih hn fun hall => h (List.forall_mem_cons.mpr ⟨by simp [hblank], hall⟩)
    | false =>
      by_cases hfine : Fine x
      · obtain ⟨item, hitem, -⟩ := R.takes n x hn hblank hfine
        obtain ⟨message, hmessage⟩ := ih (Nat.le_succ_of_le hn)
          fun hall => h (List.forall_mem_cons.mpr ⟨fun _ => hfine, hall⟩)
        rw [hitem]
        dsimp only
        rw [hmessage]
        exact ⟨message, rfl⟩
      · obtain ⟨message, hmessage⟩ := R.raises n x hblank hfine
        rw [hmessage]
        exact ⟨message, rfl⟩

theorem readAll_own_iff (R : Reader read blank Fine) (hn : 1 ≤ n) :
    OwnWords (readAll read n xs) ↔ ∀ x ∈ xs, blank x = false → Fine x := by
  by_cases h : ∀ x ∈ xs, blank x = false → Fine x
  · obtain ⟨items, hitems, -⟩ := readAll_ok R hn h
    rw [hitems]
    exact iff_of_true trivial h
  · obtain ⟨message, hmessage⟩ := readAll_raised R hn h
    rw [hmessage]
    exact iff_of_false (fun h => h) h

/-- A reader refuses nothing. -/
theorem readAll_error (R : Reader read blank Fine) (hn : 1 ≤ n) {failure : SuiteFailure}
    (h : readAll read n xs = .error failure) :
    ¬ OwnWords (.error failure : Except SuiteFailure (List SuiteItem)) := by
  intro hown
  rw [← h, readAll_own_iff R hn] at hown
  obtain ⟨items, hitems, -⟩ := readAll_ok R hn hown
  rw [h] at hitems
  cases hitems

/-- What was read. -/
theorem readAll_numbers (R : Reader read blank Fine) (hn : 1 ≤ n) {items : List SuiteItem}
    (h : readAll read n xs = .ok items) :
    items.map (·.n) = List.range' n (xs.filter fun x => !blank x).length := by
  have hfine : ∀ x ∈ xs, blank x = false → Fine x := by
    rw [← readAll_own_iff R hn, h]
    trivial
  obtain ⟨items', hitems', hnumbers⟩ := readAll_ok R hn hfine
  rw [h] at hitems'
  obtain rfl := Except.ok.inj hitems'
  exact hnumbers

end ReadAll

/-! ## Rows and bullets -/

variable {U : Unicode} {cols : Columns} {width n : Nat} {row : List (List Char)}

/-- The number that the text names is one that `int` reads. -/
def CountReads (U : Unicode) (text : List Char) : Prop :=
  ∀ digits, search (cyclesAt U) text = some digits → (U.int digits).isSome = true

theorem cyclesInText_ok {text : List Char} (h : CountReads U text) :
    ∃ count, cyclesInText U text = .ok count ∧ (count = 1 ∨
      ∃ digits, search (cyclesAt U) text = some digits ∧ U.int digits = some count) := by
  unfold cyclesInText
  cases hsearch : search (cyclesAt U) text with
  | none => exact ⟨1, rfl, .inl rfl⟩
  | some digits =>
    obtain ⟨count, hcount⟩ := Option.isSome_iff_exists.mp (h digits hsearch)
    exact ⟨count, by simp [hcount], .inr ⟨digits, rfl, hcount⟩⟩

theorem cyclesInText_raised {text : List Char} (h : ¬ CountReads U text) :
    ∃ message, cyclesInText U text = .error (.raised message) := by
  unfold cyclesInText
  cases hsearch : search (cyclesAt U) text with
  | none => exact absurd (fun digits hdigits => by simp [hsearch] at hdigits) h
  | some digits =>
    dsimp only
    cases hcount : U.int digits with
    | none => exact ⟨_, rfl⟩
    | some count =>
      refine absurd (fun digits' hdigits' => ?_) h
      obtain rfl := Option.some.inj (hsearch.symm.trans hdigits')
      simp [hcount]

/-- The cells of a row, filled up to the header. -/
def cellsOfRow (width : Nat) (row : List (List Char)) : List (List Char) :=
  row ++ List.replicate (width - row.length) []

def rowTitle (cols : Columns) (width : Nat) (row : List (List Char)) : List Char :=
  (cellsOfRow width row).getD (cols.step.getD (cols.action.getD 0)) []

def rowAction (cols : Columns) (width : Nat) (row : List (List Char)) : List Char :=
  cellAt (cellsOfRow width row) cols.action (rowTitle cols width row)

def rowParams (cols : Columns) (width : Nat) (row : List (List Char)) : List Char :=
  cellAt (cellsOfRow width row) cols.params []

/-- What the counts and the settle time of a row are read from. -/
def rowText (cols : Columns) (width : Nat) (row : List (List Char)) : List Char :=
  rowTitle cols width row ++ ' ' :: rowAction cols width row ++ ' ' :: rowParams cols width row

def rowDraft (U : Unicode) (cols : Columns) (width : Nat) (row : List (List Char)) (cycles : Int) :
    Draft where
  title := titleOf U (rowTitle cols width row) (rowAction cols width row)
  action := Text.strip (if rowAction cols width row = [] then rowTitle cols width row
    else rowAction cols width row)
  params := (pieces (rowParams cols width row)).foldl (addPair U)
    (settleParams U (rowText cols width row))
  cycles := (max 1 (min cycles 10000)).toNat
  approved := isApproved U (cellAt (cellsOfRow width row) cols.approved [])
    (rowParams cols width row)

def blankRow (cols : Columns) (width : Nat) (row : List (List Char)) : Bool :=
  decide (Text.strip (rowTitle cols width row) = [] ∧ Text.strip (rowAction cols width row) = [])

/-- A row that is an item: its counts are numbers, and it has a title and an action once
    they are cleaned. -/
structure RowFine (U : Unicode) (cols : Columns) (width : Nat) (row : List (List Char)) : Prop where
  count : CountReads U (rowText cols width row)
  cell : Text.strip (cellAt (cellsOfRow width row) cols.cycles []) ≠ [] →
    ∀ neg, U.float (cellAt (cellsOfRow width row) cols.cycles []) ≠ some (.infinite neg)
  named : if rowAction cols width row = [] then cleanTitle U (rowTitle cols width row) ≠ []
    else Text.strip (rowAction cols width row) ≠ []

/-- A row, as an item. -/
def readRow (U : Unicode) (cols : Columns) (width n : Nat) (row : List (List Char)) :
    Except SuiteFailure (Option SuiteItem) := do
  match ← draftOfRow U cols width row with
  | none => return none
  | some draft => return some (← draft.item n)

theorem itemsOfRows_eq {rows : List (List (List Char))} :
    itemsOfRows U cols width n rows = readAll (readRow U cols width) n rows := by
  induction rows generalizing n with
  | nil => rfl
  | cons row rows ih =>
    rw [itemsOfRows, readAll, readRow]
    simp only [bind, Except.bind, pure, Except.pure]
    cases draftOfRow U cols width row with
    | error e => rfl
    | ok found =>
      cases found with
      | none => exact ih
      | some draft =>
        dsimp only
        cases draft.item n with
        | error e => rfl
        | ok item =>
          dsimp only
          rw [ih]
          cases readAll (readRow U cols width) (n + 1) rows <;> rfl

theorem Draft.item_ok {draft : Draft} (hn : 1 ≤ n) (htitle : draft.title ≠ [])
    (hshort : draft.title.length ≤ 200) (haction : draft.action ≠ []) (hcycles : 1 ≤ draft.cycles) :
    ∃ item, draft.item n = .ok item ∧ item.n = n := by
  rw [Draft.item, dif_pos ⟨hn, htitle, hshort, haction, hcycles⟩]
  exact ⟨_, rfl, rfl⟩

theorem Draft.item_raised {draft : Draft}
    (h : ¬ (draft.title ≠ [] ∧ draft.action ≠ [] ∧ 1 ≤ draft.cycles)) :
    draft.item n = .error invalidItem := by
  rw [Draft.item, dif_neg fun hvalid => h ⟨hvalid.2.1, hvalid.2.2.2.1, hvalid.2.2.2.2⟩]

theorem cyclesOfCell_ok {cell : List Char} {inText : Nat}
    (h : Text.strip cell ≠ [] → ∀ neg, U.float cell ≠ some (.infinite neg)) :
    ∃ cycles, cyclesOfCell U cell inText = .ok cycles := by
  unfold cyclesOfCell
  split
  · exact ⟨_, rfl⟩
  · rename_i hcell
    split
    · exact ⟨_, rfl⟩
    · rename_i neg hfloat
      exact absurd hfloat (h hcell neg)
    · exact ⟨_, rfl⟩

theorem cyclesOfCell_raised {cell : List Char} {inText : Nat}
    (h : ¬ (Text.strip cell ≠ [] → ∀ neg, U.float cell ≠ some (.infinite neg))) :
    ∃ message, cyclesOfCell U cell inText = .error (.raised message) := by
  obtain ⟨hcell, hinfinite⟩ := Classical.not_imp.mp h
  obtain ⟨neg, hneg⟩ := Classical.not_forall.mp hinfinite
  rw [cyclesOfCell, if_neg hcell, Classical.not_not.mp hneg]
  exact ⟨_, rfl⟩

theorem take_eq_nil {cs : List Char} : cs.take 200 = [] ↔ cs = [] := by
  cases cs <;> simp

theorem titleOf_ne_iff {title action : List Char} :
    titleOf U title action ≠ [] ↔ cleanTitle U title ≠ [] ∨ Text.strip action ≠ [] := by
  unfold titleOf
  dsimp only
  by_cases hclean : cleanTitle U title = []
  · simp [hclean]
  · rw [if_neg (by rwa [take_eq_nil])]
    simp [hclean]

theorem length_titleOf {title action : List Char} : (titleOf U title action).length ≤ 200 := by
  unfold titleOf
  dsimp only
  split <;> exact List.length_take_le 200 _

/-- A row that is not blank has a title and an action exactly when it is named. -/
theorem named_iff {title action : List Char} (h : ¬ (Text.strip title = [] ∧ Text.strip action = [])) :
    (titleOf U title action ≠ [] ∧ Text.strip (if action = [] then title else action) ≠ []) ↔
      (if action = [] then cleanTitle U title ≠ [] else Text.strip action ≠ []) := by
  rw [titleOf_ne_iff]
  by_cases haction : action = []
  · have hblank : Text.strip ([] : List Char) = [] := rfl
    have htitle : Text.strip title ≠ [] := fun ht => h ⟨ht, by rw [haction]; rfl⟩
    simp [haction, hblank, htitle]
  · simp only [haction, if_false]
    exact ⟨fun hboth => hboth.2, fun hstrip => ⟨.inr hstrip, hstrip⟩⟩

theorem draftOfRow_eq : draftOfRow U cols width row =
    if Text.strip (rowTitle cols width row) = [] ∧ Text.strip (rowAction cols width row) = [] then
      .ok none
    else do
      let inText ← cyclesInText U (rowText cols width row)
      let cycles ← cyclesOfCell U (cellAt (cellsOfRow width row) cols.cycles []) inText
      return some (rowDraft U cols width row cycles) := rfl

theorem rowDraft_ok_iff {cycles : Int} (hn : 1 ≤ n)
    (h : ¬ (Text.strip (rowTitle cols width row) = [] ∧ Text.strip (rowAction cols width row) = [])) :
    (∃ item, (rowDraft U cols width row cycles).item n = .ok item ∧ item.n = n) ↔
      (if rowAction cols width row = [] then cleanTitle U (rowTitle cols width row) ≠ []
        else Text.strip (rowAction cols width row) ≠ []) := by
  rw [← named_iff h]
  constructor
  · rintro ⟨item, hitem, -⟩
    by_contra hnot
    rw [Draft.item_raised fun hvalid => hnot ⟨hvalid.1, hvalid.2.1⟩] at hitem
    cases hitem
  · rintro ⟨htitle, haction⟩
    refine Draft.item_ok hn htitle length_titleOf haction ?_
    change 1 ≤ (max 1 (min cycles 10000)).toNat
    omega

theorem readRow_reader : Reader (readRow U cols width) (blankRow cols width)
    (RowFine U cols width) where
  skips := by
    intro n row hblank
    rw [readRow, draftOfRow_eq, if_pos (by simpa [blankRow] using hblank)]
    rfl
  takes := by
    intro n row hn hblank hfine
    have hnot : ¬ (Text.strip (rowTitle cols width row) = [] ∧
        Text.strip (rowAction cols width row) = []) := by simpa [blankRow] using hblank
    obtain ⟨inText, hinText, -⟩ := cyclesInText_ok hfine.count
    obtain ⟨cycles, hcycles⟩ : ∃ cycles, cyclesOfCell U _ inText = .ok cycles :=
      cyclesOfCell_ok hfine.cell
    obtain ⟨item, hitem, hnumber⟩ : ∃ item, (rowDraft U cols width row cycles).item n = .ok item ∧
        item.n = n := (rowDraft_ok_iff hn hnot).mpr hfine.named
    refine ⟨item, ?_, hnumber⟩
    rw [readRow, draftOfRow_eq, if_neg hnot]
    simp only [bind, Except.bind, pure, Except.pure, hinText, hcycles, hitem]
  raises := by
    intro n row hblank hfine
    have hnot : ¬ (Text.strip (rowTitle cols width row) = [] ∧
        Text.strip (rowAction cols width row) = []) := by simpa [blankRow] using hblank
    rw [readRow, draftOfRow_eq, if_neg hnot]
    by_cases hcount : CountReads U (rowText cols width row)
    · obtain ⟨inText, hinText, -⟩ := cyclesInText_ok hcount
      by_cases hcell : Text.strip (cellAt (cellsOfRow width row) cols.cycles []) ≠ [] →
          ∀ neg, U.float (cellAt (cellsOfRow width row) cols.cycles []) ≠ some (.infinite neg)
      · obtain ⟨cycles, hcycles⟩ : ∃ cycles, cyclesOfCell U _ inText = .ok cycles :=
          cyclesOfCell_ok hcell
        have hraised : (rowDraft U cols width row cycles).item n = .error invalidItem :=
          Draft.item_raised fun h => hfine ⟨hcount, hcell, (named_iff hnot).mp ⟨h.1, h.2.1⟩⟩
        simp only [bind, Except.bind, pure, Except.pure, hinText, hcycles, hraised]
        exact ⟨_, rfl⟩
      · obtain ⟨message, hmessage⟩ : ∃ message, cyclesOfCell U _ inText = .error (.raised message) :=
          cyclesOfCell_raised hcell
        simp only [bind, Except.bind, hinText, hmessage]
        exact ⟨message, rfl⟩
    · obtain ⟨message, hmessage⟩ := cyclesInText_raised hcount
      simp only [bind, Except.bind, hmessage]
      exact ⟨message, rfl⟩

/-- The text of a bullet without the word that approves it, cleaned. -/
def bulletTitle (U : Unicode) (raw : List Char) : List Char :=
  cleanTitle U (sub (approvedAt U) [] raw)

/-- A bullet that is an item: its count is a number, and not zero, and something is left
    of its text once it is cleaned. -/
structure BulletFine (U : Unicode) (raw : List Char) : Prop where
  count : CountReads U raw
  some_cycles : ∀ digits, search (cyclesAt U) raw = some digits → U.int digits ≠ some 0
  named : bulletTitle U raw ≠ []

/-- A line, as an item. -/
def readLine (U : Unicode) (n : Nat) (line : List Char) : Except SuiteFailure (Option SuiteItem) :=
  match bulletAt U line with
  | none => .ok none
  | some raw => do
    let draft ← draftOfBullet U raw
    return some (← draft.item n)

/-- A line that is no bullet. -/
def plainLine (U : Unicode) (line : List Char) : Bool := (bulletAt U line).isNone

def LineFine (U : Unicode) (line : List Char) : Prop :=
  ∀ raw, bulletAt U line = some raw → BulletFine U raw

theorem itemsOfBullets_eq {lines : List (List Char)} :
    itemsOfBullets U n lines = readAll (readLine U) n lines := by
  induction lines generalizing n with
  | nil => rfl
  | cons line lines ih =>
    rw [itemsOfBullets, readAll, readLine]
    cases bulletAt U line with
    | none => exact ih
    | some raw =>
      simp only [bind, Except.bind, pure, Except.pure]
      cases draftOfBullet U raw with
      | error e => rfl
      | ok draft =>
        dsimp only
        cases draft.item n with
        | error e => rfl
        | ok item =>
          dsimp only
          rw [ih]
          cases readAll (readLine U) (n + 1) lines <;> rfl

theorem readLine_reader : Reader (readLine U) (plainLine U) (LineFine U) where
  skips := by
    intro n line hplain
    rw [readLine, Option.isNone_iff_eq_none.mp hplain]
  takes := by
    intro n line hn hbullet hfine
    obtain ⟨raw, hraw⟩ : ∃ raw, bulletAt U line = some raw := by
      simpa [plainLine, Option.isNone_eq_false_iff, Option.isSome_iff_exists] using hbullet
    have hraw' := hfine raw hraw
    obtain ⟨count, hcount, hnumber⟩ := cyclesInText_ok hraw'.count
    have hpos : 1 ≤ count := by
      rcases hnumber with rfl | ⟨digits, hdigits, hint⟩
      · exact Nat.le_refl 1
      · refine Nat.one_le_iff_ne_zero.mpr fun hzero => hraw'.some_cycles digits hdigits ?_
        rw [hint, hzero]
    have htitle : (bulletTitle U raw).take 200 ≠ [] := fun h => hraw'.named (take_eq_nil.mp h)
    obtain ⟨item, hitem, hn'⟩ : ∃ item, Draft.item
        { title := (bulletTitle U raw).take 200, action := bulletTitle U raw
          params := settleParams U raw, cycles := count
          approved := (search (approvedAt U) raw).isSome } n = .ok item ∧ item.n = n :=
      Draft.item_ok hn htitle (List.length_take_le 200 _) hraw'.named hpos
    refine ⟨item, ?_, hn'⟩
    simp only [readLine, hraw, draftOfBullet, bind, Except.bind, pure, Except.pure, hcount]
    rw [← bulletTitle, hitem]
  raises := by
    intro n line hbullet hfine
    obtain ⟨raw, hraw⟩ : ∃ raw, bulletAt U line = some raw := by
      simpa [plainLine, Option.isNone_eq_false_iff, Option.isSome_iff_exists] using hbullet
    have hnot : ¬ BulletFine U raw := fun h => hfine fun raw' hraw' => by
      obtain rfl := Option.some.inj (hraw.symm.trans hraw')
      exact h
    simp only [readLine, hraw, draftOfBullet, bind, Except.bind, pure, Except.pure]
    by_cases hcount : CountReads U raw
    · obtain ⟨count, hcycles, hnumber⟩ := cyclesInText_ok hcount
      rw [hcycles]
      dsimp only
      rw [← bulletTitle, Draft.item_raised]
      · exact ⟨_, rfl⟩
      · rintro ⟨-, htitle, hpos⟩
        refine hnot ⟨hcount, fun digits hdigits hzero => ?_, htitle⟩
        rcases hnumber with rfl | ⟨digits', hdigits', hint⟩
        · have hone : cyclesInText U raw = .ok 0 := by simp [cyclesInText, hdigits, hzero]
          rw [hcycles] at hone
          cases hone
        · obtain rfl := Option.some.inj (hdigits.symm.trans hdigits')
          obtain rfl := Option.some.inj (hint.symm.trans hzero)
          exact absurd hpos (Nat.not_succ_le_zero 0)
    · obtain ⟨message, hmessage⟩ := cyclesInText_raised hcount
      rw [hmessage]
      exact ⟨message, rfl⟩

/-! ## Tables -/

variable {rows : List (List (List Char))} {source text : String} {items : List SuiteItem}
  {lines : List (List Char)}

def columnsOf (U : Unicode) (first : List (List Char)) : Columns :=
  columns (first.map fun cell => U.lower (Text.strip cell))

/-- The header has neither a Step nor an Action column. -/
def Unheaded (U : Unicode) (first : List (List Char)) : Prop :=
  (columnsOf U first).step = none ∧ (columnsOf U first).action = none

/-- A table that is refused. -/
def Refused (U : Unicode) : List (List (List Char)) → Prop
  | [] => False
  | first :: _ => Unheaded U first

/-- Every row of the table that is not blank is an item. -/
def RowsFine (U : Unicode) : List (List (List Char)) → Prop
  | [] => True
  | first :: rest => ¬ Unheaded U first → ∀ row ∈ rest,
    blankRow (columnsOf U first) first.length row = false →
      RowFine U (columnsOf U first) first.length row

/-- The rows of the table that are not blank. -/
def rowsGiven (U : Unicode) : List (List (List Char)) → Nat
  | [] => 0
  | first :: rest => (rest.filter fun row => !blankRow (columnsOf U first) first.length row).length

theorem itemsFromRows_unheaded {first : List (List Char)} (h : Unheaded U first) :
    itemsFromRows U (first :: rows) source = .error (.refused (noStepColumn source)) := if_pos h

theorem itemsFromRows_headed {first : List (List Char)} (h : ¬ Unheaded U first) :
    itemsFromRows U (first :: rows) source =
      readAll (readRow U (columnsOf U first) first.length) 1 rows := by
  have hlength : (first.map fun cell => U.lower (Text.strip cell)).length = first.length :=
    List.length_map _
  rw [← itemsOfRows_eq, ← hlength]
  exact if_neg h

theorem itemsFromRows_own_iff : OwnWords (itemsFromRows U rows source) ↔ RowsFine U rows := by
  cases rows with
  | nil => exact iff_of_true trivial trivial
  | cons first rest =>
    dsimp only [RowsFine]
    by_cases hheader : Unheaded U first
    · rw [itemsFromRows_unheaded hheader]
      exact iff_of_true trivial fun h => absurd hheader h
    · rw [itemsFromRows_headed hheader, readAll_own_iff readRow_reader (Nat.le_refl 1),
        forall_prop_of_true hheader]

/-- A table with a header is read, or something escapes. -/
theorem itemsFromRows_error {failure : SuiteFailure}
    (h : itemsFromRows U rows source = .error failure) (hheaded : ¬ Refused U rows) :
    ¬ OwnWords (.error failure : Except SuiteFailure (List SuiteItem)) := by
  cases rows with
  | nil => cases h
  | cons first rest =>
    rw [itemsFromRows_headed hheaded] at h
    exact readAll_error readRow_reader (Nat.le_refl 1) h

theorem itemsFromRows_numbers (h : itemsFromRows U rows source = .ok items) :
    items.map (·.n) = List.range' 1 (rowsGiven U rows) ∧ ¬ Refused U rows := by
  cases rows with
  | nil =>
    cases h
    exact ⟨rfl, fun h => h⟩
  | cons first rest =>
    by_cases hheader : Unheaded U first
    · rw [itemsFromRows_unheaded hheader] at h
      cases h
    · rw [itemsFromRows_headed hheader] at h
      exact ⟨readAll_numbers readRow_reader (Nat.le_refl 1) h, hheader⟩

theorem nil_iff_of_numbers {k : Nat} (h : items.map (·.n) = List.range' 1 k) :
    items = [] ↔ k = 0 := by
  have hlength := congrArg List.length h
  rw [List.length_map, List.length_range'] at hlength
  rw [← hlength, List.length_eq_zero_iff]

theorem makeSuite_own_iff {title : List Char} :
    OwnWords (makeSuite title items) ↔ title ≠ [] ∧ items ≠ [] ∧ items.length ≤ 200 := by
  unfold makeSuite
  split
  · rename_i hvalid
    exact iff_of_true trivial hvalid
  · rename_i hvalid
    exact iff_of_false (fun h => h) hvalid

/-! ## Documents and worksheets -/

/-- The table of a document. -/
def tableOf (lines : List (List Char)) : List (List (List Char)) :=
  rowsFromMarkdownTable (lines.filter isTableLine)

/-- A document that is read, or refused: its rows are items; without rows, its bullets
    are; and with either it has a heading. -/
def MdFine (U : Unicode) (text source : String) : Prop :=
  Text.strip text.toList ≠ [] → RowsFine U (tableOf (splitlines text.toList)) ∧
    (¬ Refused U (tableOf (splitlines text.toList)) →
      (rowsGiven U (tableOf (splitlines text.toList)) = 0 →
        ∀ line ∈ splitlines text.toList, plainLine U line = false → LineFine U line) ∧
      (rowsGiven U (tableOf (splitlines text.toList)) ≠ 0 ∨
        (∃ line ∈ splitlines text.toList, plainLine U line = false) →
          headingOf (splitlines text.toList) source ≠ []))

/-- A worksheet that is read, or refused: its rows are items, at most 200 of them, and the
    file has a name. -/
def SheetFine (U : Unicode) (rows : List (List String)) (source : String) : Prop :=
  RowsFine U (rows.map fun row => row.map String.toList) ∧
    (¬ Refused U (rows.map fun row => row.map String.toList) →
      rowsGiven U (rows.map fun row => row.map String.toList) ≠ 0 →
        Text.stem source ≠ "" ∧ rowsGiven U (rows.map fun row => row.map String.toList) ≤ 200)

theorem itemsOfLines_eq : itemsOfLines U lines source =
    match itemsFromRows U (tableOf lines) source with
    | .error e => .error e
    | .ok tabled => if tabled = [] then itemsOfBullets U 1 lines else .ok tabled := by
  unfold itemsOfLines
  by_cases hnone : lines.filter isTableLine = []
  · have htable : tableOf lines = [] := by rw [tableOf, hnone]; rfl
    rw [htable, if_pos hnone]
    rfl
  · rw [if_neg hnone]
    simp only [bind, Except.bind, tableOf]
    cases itemsFromRows U (rowsFromMarkdownTable (lines.filter isTableLine)) source with
    | error e => rfl
    | ok tabled => rfl

/-- The items of a document, and what is asked of its lines for them. -/
theorem itemsOfLines_own_iff : OwnWords (itemsOfLines U lines source) ↔
    RowsFine U (tableOf lines) ∧ (¬ Refused U (tableOf lines) → rowsGiven U (tableOf lines) = 0 →
      ∀ line ∈ lines, plainLine U line = false → LineFine U line) := by
  have hrows : OwnWords (itemsFromRows U (tableOf lines) source) ↔ RowsFine U (tableOf lines) :=
    itemsFromRows_own_iff
  rw [itemsOfLines_eq, ← hrows]
  cases htable : itemsFromRows U (tableOf lines) source with
  | error e =>
    by_cases hrefused : Refused U (tableOf lines)
    · exact ⟨fun h => ⟨h, fun hnot => absurd hrefused hnot⟩, fun h => h.1⟩
    · have hnot : ¬ OwnWords (.error e : Except SuiteFailure (List SuiteItem)) :=
        itemsFromRows_error htable hrefused
      exact iff_of_false hnot fun h => hnot h.1
  | ok tabled =>
    obtain ⟨hnumbers, hheaded⟩ := itemsFromRows_numbers htable
    have hnil := nil_iff_of_numbers hnumbers
    dsimp only
    by_cases hnone : tabled = []
    · rw [if_pos hnone, itemsOfBullets_eq, readAll_own_iff readLine_reader (Nat.le_refl 1)]
      exact ⟨fun h => ⟨trivial, fun _ _ => h⟩, fun h => h.2 hheaded (hnil.mp hnone)⟩
    · rw [if_neg hnone]
      exact iff_of_true trivial ⟨trivial, fun _ hzero => absurd (hnil.mpr hzero) hnone⟩

theorem filter_length_ne_zero {lines : List (List Char)} :
    (lines.filter fun line => !plainLine U line).length ≠ 0 ↔
      ∃ line ∈ lines, plainLine U line = false := by
  rw [Ne, List.length_eq_zero_iff, List.filter_eq_nil_iff]
  simp

theorem itemsOfLines_numbers (h : itemsOfLines U lines source = .ok items) :
    (∃ k, items.map (·.n) = List.range' 1 k) ∧ ¬ Refused U (tableOf lines) ∧
      (items ≠ [] ↔ rowsGiven U (tableOf lines) ≠ 0 ∨ ∃ line ∈ lines, plainLine U line = false) := by
  rw [itemsOfLines_eq] at h
  cases htable : itemsFromRows U (tableOf lines) source with
  | error e =>
    rw [htable] at h
    cases h
  | ok tabled =>
    rw [htable] at h
    dsimp only at h
    obtain ⟨hnumbers, hheaded⟩ := itemsFromRows_numbers htable
    have hnil := nil_iff_of_numbers hnumbers
    by_cases hnone : tabled = []
    · rw [if_pos hnone, itemsOfBullets_eq] at h
      have hbullets := readAll_numbers readLine_reader (Nat.le_refl 1) h
      refine ⟨⟨_, hbullets⟩, hheaded, ?_⟩
      rw [← filter_length_ne_zero, Ne, nil_iff_of_numbers hbullets]
      simp [hnil.mp hnone]
    · rw [if_neg hnone] at h
      obtain rfl := Except.ok.inj h
      refine ⟨⟨_, hnumbers⟩, hheaded, ?_⟩
      exact iff_of_true hnone (.inl fun hzero => hnone (hnil.mpr hzero))

theorem itemsOfLines_error {failure : SuiteFailure}
    (h : itemsOfLines U lines source = .error failure) (hheaded : ¬ Refused U (tableOf lines)) :
    ¬ OwnWords (.error failure : Except SuiteFailure (List SuiteItem)) := by
  rw [itemsOfLines_eq] at h
  cases htable : itemsFromRows U (tableOf lines) source with
  | error e =>
    rw [htable] at h
    obtain rfl := Except.error.inj h
    exact itemsFromRows_error htable hheaded
  | ok tabled =>
    rw [htable] at h
    dsimp only at h
    split at h
    · rw [itemsOfBullets_eq] at h
      exact readAll_error readLine_reader (Nat.le_refl 1) h
    · cases h

/-- A document is read or refused in the reader's own words exactly when it is fine. -/
theorem parseSuiteMd_own_iff : OwnWords (parseSuiteMd U text source) ↔ MdFine U text source := by
  unfold parseSuiteMd MdFine
  by_cases hblank : Text.strip text.toList = []
  · rw [if_pos hblank]
    exact iff_of_true trivial fun h => absurd hblank h
  · have hown : OwnWords (itemsOfLines U (splitlines text.toList) source) ↔ _ :=
      itemsOfLines_own_iff
    rw [if_neg hblank, forall_prop_of_true hblank]
    simp only [bind, Except.bind]
    cases hitems : itemsOfLines U (splitlines text.toList) source with
    | error e =>
      rw [hitems] at hown
      dsimp only
      constructor
      · intro h
        refine ⟨(hown.mp h.of_error).1, fun hheaded => ?_⟩
        exact absurd h.of_error (itemsOfLines_error hitems hheaded)
      · exact fun h => (hown.mpr ⟨h.1, fun hnot => (h.2 hnot).1⟩).of_error
    | ok items =>
      rw [hitems] at hown
      obtain ⟨hrows, hbullets⟩ := hown.mp trivial
      obtain ⟨-, hheaded, hsome⟩ := itemsOfLines_numbers hitems
      dsimp only
      by_cases hnone : items = []
      · rw [if_pos hnone]
        refine iff_of_true trivial ⟨hrows, fun _ => ⟨hbullets hheaded, fun hgiven => ?_⟩⟩
        exact absurd hnone (hsome.mpr hgiven)
      · have htake : items.take 200 ≠ [] := by
          cases items with
          | nil => exact absurd rfl hnone
          | cons item items => simp
        rw [if_neg hnone, makeSuite_own_iff]
        constructor
        · exact fun h => ⟨hrows, fun _ => ⟨hbullets hheaded, fun _ => h.1⟩⟩
        · exact fun h => ⟨(h.2 hheaded).2 (hsome.mp hnone), htake, List.length_take_le 200 _⟩

/-- A worksheet is read or refused in the reader's own words exactly when it is fine. -/
theorem parseSuiteRows_own_iff {rows : List (List String)} :
    OwnWords (parseSuiteRows U rows source) ↔ SheetFine U rows source := by
  have hown : OwnWords (itemsFromRows U (rows.map fun row => row.map String.toList) source) ↔ _ :=
    itemsFromRows_own_iff
  have hname : ((Text.stem source).toList.map fun c => if c = '-' ∨ c = '_' then ' ' else c) ≠ [] ↔
      Text.stem source ≠ "" := by
    rw [Ne, List.map_eq_nil_iff, String.toList_eq_nil_iff]
  unfold parseSuiteRows SheetFine
  simp only [bind, Except.bind]
  cases hitems : itemsFromRows U (rows.map fun row => row.map String.toList) source with
  | error e =>
    rw [hitems] at hown
    dsimp only
    constructor
    · intro h
      refine ⟨hown.mp h.of_error, fun hheaded => ?_⟩
      exact absurd h.of_error (itemsFromRows_error hitems hheaded)
    · exact fun h => (hown.mpr h.1).of_error
  | ok items =>
    rw [hitems] at hown
    obtain ⟨hnumbers, hheaded⟩ := itemsFromRows_numbers hitems
    have hlength := congrArg List.length hnumbers
    rw [List.length_map, List.length_range'] at hlength
    dsimp only
    by_cases hnone : items = []
    · rw [if_pos hnone]
      refine iff_of_true trivial ⟨hown.mp trivial, fun _ hgiven => ?_⟩
      exact absurd ((nil_iff_of_numbers hnumbers).mp hnone) hgiven
    · rw [if_neg hnone, makeSuite_own_iff, hname, hlength]
      constructor
      · exact fun h => ⟨hown.mp trivial, fun _ _ => ⟨h.1, h.2.2⟩⟩
      · intro h
        have hgiven := h.2 hheaded fun hzero => hnone ((nil_iff_of_numbers hnumbers).mpr hzero)
        exact ⟨hgiven.1, hnone, hgiven.2⟩

/-! ## Reading and compiling -/

variable {suite : Suite}

/-- The items of a suite that was read are numbered from 1. -/
theorem parseSuiteMd_numbers (h : parseSuiteMd U text source = .ok suite) :
    ∃ k, suite.items.map (·.n) = List.range' 1 k := by
  obtain ⟨-, items, hitems, -, hmade⟩ := parseSuiteMd_ok.mp h
  obtain ⟨⟨k, hnumbers⟩, -⟩ := itemsOfLines_numbers hitems
  rw [(makeSuite_items hmade).1, List.map_take, hnumbers]
  rcases Nat.le_total k 200 with hle | hle
  · exact ⟨k, List.take_range'_of_length_le hle⟩
  · exact ⟨200, List.take_range'_of_length_ge hle⟩

theorem parseSuiteRows_numbers {rows : List (List String)}
    (h : parseSuiteRows U rows source = .ok suite) :
    ∃ k, suite.items.map (·.n) = List.range' 1 k := by
  simp only [parseSuiteRows, bind, Except.bind] at h
  cases hitems : itemsFromRows U (rows.map fun row => row.map String.toList) source with
  | error e =>
    rw [hitems] at h
    cases h
  | ok items =>
    rw [hitems] at h
    dsimp only at h
    split at h
    · cases h
    · rw [(makeSuite_items h).1]
      exact ⟨_, (itemsFromRows_numbers hitems).1⟩

variable {B : Builtins} {compiler : Option Compiler} {guardrails : Guardrails} {target jobId : String}
  {now : DateTime}

/-- What there is to ask of a suite that was read, for it to be compiled or refused. -/
structure Timed (B : Builtins) (compiler : Option Compiler) (guardrails : Guardrails)
    (suite : Suite) (jobId : String) : Prop where
  readable : ItemsReadable B compiler guardrails suite.items 0 0
  job : ∀ entries total, compileItems B compiler guardrails suite.items 0 0 = .ok (entries, total) →
    3 + stepsIn entries ≤ MAX_STEPS - 2 → jobId ≠ ""

theorem compilable_iff_timed (h : ∃ k, suite.items.map (·.n) = List.range' 1 k) :
    Compilable B compiler guardrails suite jobId ↔ Timed B compiler guardrails suite jobId := by
  constructor
  · exact fun hc => ⟨hc.readable, fun entries total hok hfits => (hc.distinct _ _ hok hfits).1⟩
  · refine fun ht => ⟨ht.readable, fun entries total hok hfits => ⟨ht.job _ _ hok hfits, ?_⟩⟩
    obtain ⟨k, hk⟩ := h
    have hall : (entries.map fun entry => entry.1.n).Nodup := by
      have hmap : (entries.map fun entry => entry.1.n) = suite.items.map (·.n) := by
        rw [← (compileItems_ok hok).1, List.map_map]
        rfl
      rw [hmap, hk]
      exact List.nodup_range'
    exact hall.sublist (List.filter_sublist.map _)

/-- A text or a worksheet is read, and what was read is compiled. -/
def Ends (parsed : Except SuiteFailure Suite) (compile : Suite → Except CompileError Plan) : Prop :=
  OwnWords parsed ∧ ∀ suite, parsed = .ok suite → CompileError.OwnWords (compile suite)

/-- **Suite intake**: reading a suite and compiling it ends in a plan or in the words of
    the two, exactly when the document, or the worksheet, is fine, and the suite that was
    read is. -/
theorem intake_iff :
    (∀ text source, Ends (parseSuiteMd U text source)
        (fun suite => compileSuite B suite jobId target guardrails now compiler) ↔
      MdFine U text source ∧ ∀ suite, parseSuiteMd U text source = .ok suite →
        Timed B compiler guardrails suite jobId) ∧
    ∀ rows source, Ends (parseSuiteRows U rows source)
        (fun suite => compileSuite B suite jobId target guardrails now compiler) ↔
      SheetFine U rows source ∧ ∀ suite, parseSuiteRows U rows source = .ok suite →
        Timed B compiler guardrails suite jobId := by
  constructor
  · intro text source
    rw [Ends, parseSuiteMd_own_iff]
    refine and_congr_right fun _ => forall_congr' fun suite => imp_congr_right fun h => ?_
    rw [compileSuite_own_iff, compilable_iff_timed (parseSuiteMd_numbers h)]
  · intro rows source
    rw [Ends, parseSuiteRows_own_iff]
    refine and_congr_right fun _ => forall_congr' fun suite => imp_congr_right fun h => ?_
    rw [compileSuite_own_iff, compilable_iff_timed (parseSuiteRows_numbers h)]

instance {α : Type} : (result : Except SuiteFailure α) → Decidable (OwnWords result)
  | .error (.raised _) => .isFalse fun h => h
  | .error (.refused _) => .isTrue trivial
  | .ok _ => .isTrue trivial

/-- No cycles, no heading, and nothing left of a title. -/
theorem intake_escapes :
    ¬ OwnWords (parseSuiteMd .plain "# Nightly\n- reboot x0\n" "nightly.md") ∧
      ¬ OwnWords (parseSuiteMd .plain "# \n- check the fans\n" "nightly.md") ∧
      ¬ OwnWords (parseSuiteRows .plain [["Step", "Action"], ["x3", ""]] "nightly.xlsx") := by
  refine ⟨by decide +kernel, by decide +kernel, by decide +kernel⟩

end SuiteText

end Slas
