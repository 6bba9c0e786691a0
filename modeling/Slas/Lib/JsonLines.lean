/-
  Slas.Lib.JsonLines

  Rows as lines of JSON, appended to a text and read back with `str.splitlines`.

  How a row is written and read is given, `Format`; what is relied on is `Format.Lawful`.  A row
  is *readable* if no text in it holds U+0085, U+2028 or U+2029, the boundaries of `splitlines`
  that JSON leaves as they are.

  `read_textOf_iff`: rows come back exactly if all of them are readable.
-/

import Slas.Lib.JsonText
import Slas.Lib.Lines

namespace Json

theorem charsFields_eq (kvs : List (String × Json)) :
    charsFields kvs = kvs.flatMap fun kv => kv.1.toList ++ chars kv.2 := by
  induction kvs with
  | nil => rfl
  | cons kv kvs ih => rw [charsFields, charsField, ih, List.flatMap_cons]

end Json

namespace JsonLines

variable {α : Type}

/-- How a row is written and read, and the characters of its texts. -/
structure Format (α : Type) where
  dump : α → List Char
  validate : List Char → Option α
  chars : α → List Char

/-- Reading undoes writing, the text is one JSON object, no part of which is one, and escapes
    only what JSON must escape. -/
structure Format.Lawful (F : Format α) : Prop where
  validate_dump : ∀ a, F.validate (F.dump a) = some a
  spells : ∀ a, Json.Spells (F.dump a) (F.chars a)
  brace : ∀ a, ∃ cs, F.dump a = '{' :: cs
  cut : ∀ a p q, p ++ q = F.dump a → q ≠ [] → F.validate p = none

/-- A line boundary of `splitlines` that JSON does not escape. -/
def isWideBreak (c : Char) : Bool := c = '\u0085' || c = '\u2028' || c = '\u2029'

/-- The rows of lines, of which blank ones are passed over; a line that is no row raises. -/
def readLines (F : Format α) : List (List Char) → Except (List Char) (List α)
  | [] => .ok []
  | line :: lines =>
    if Lines.isBlank line then readLines F lines
    else match F.validate line with
      | none => .error line
      | some a => (readLines F lines).map (a :: ·)

/-- The rows of a text, as a text file is read. -/
def read (F : Format α) (text : List Char) : Except (List Char) (List α) :=
  readLines F (Lines.splitlines (Lines.universalNewlines text))

def textOf (F : Format α) (rows : List α) : List Char := rows.flatMap fun a => F.dump a ++ ['\n']

variable {F : Format α} {a : α} {rows : List α} {p q : List Char} {c : Char}

/-- No text of the row holds a wide boundary. -/
def Readable (F : Format α) (a : α) : Prop := ∀ c ∈ F.chars a, isWideBreak c = false

instance (a : α) : Decidable (Readable F a) := inferInstanceAs (Decidable (∀ c ∈ F.chars a, _))

theorem textOf_cons (a : α) (rows : List α) :
    textOf F (a :: rows) = F.dump a ++ '\n' :: textOf F rows := by
  simp [textOf]

theorem textOf_concat : textOf F (rows ++ [a]) = textOf F rows ++ (F.dump a ++ ['\n']) := by
  simp [textOf]

theorem isLineBreak_eq (hc : 0x20 ≤ c.toNat) : Lines.isLineBreak c = isWideBreak c := by
  rw [Bool.eq_iff_iff, Lines.isLineBreak_of_le hc]
  simp [isWideBreak, or_assoc]

theorem isWideBreak_of_ascii (hc : Json.Ascii c) : isWideBreak c = false := by
  have hne : ∀ d : Char, 0x80 ≤ d.toNat → c ≠ d := by
    rintro d hd rfl
    exact absurd hc.2 (Nat.not_lt_of_le hd)
  simp [isWideBreak, hne '\u0085' (by decide), hne '\u2028' (by decide), hne '\u2029' (by decide)]

theorem toNat_of_isWideBreak (hc : isWideBreak c = true) : 0x80 ≤ c.toNat := by
  simp only [isWideBreak, Bool.or_eq_true, decide_eq_true_eq] at hc
  rcases hc with (rfl | rfl) | rfl <;> decide

namespace Format.Lawful

variable (hF : F.Lawful)
include hF

theorem toNat_of_mem (hc : c ∈ F.dump a) : 0x20 ≤ c.toNat := by
  rcases (hF.spells a).own c hc with hascii | ⟨-, hlow⟩
  · exact hascii.1
  · exact hlow

/-- A readable row is one line. -/
theorem unbroken (ha : Readable F a) : Lines.Unbroken (F.dump a) := by
  intro c hc
  rw [isLineBreak_eq (hF.toNat_of_mem hc)]
  rcases (hF.spells a).own c hc with hascii | ⟨hmem, -⟩
  · exact isWideBreak_of_ascii hascii
  · exact ha c hmem

/-- Another row is cut by its first wide boundary. -/
theorem broken (ha : ¬ Readable F a) :
    ∃ p c q, F.dump a = p ++ c :: q ∧ Lines.Unbroken p ∧ Lines.isLineBreak c = true := by
  rcases Lines.unbroken_or_first_break (F.dump a) with hun | hbreak
  · exfalso
    obtain ⟨c, hmem, hc⟩ : ∃ c ∈ F.chars a, isWideBreak c = true := by
      simpa [Readable] using ha
    have htext := (hF.spells a).wide c hmem (toNat_of_isWideBreak hc)
    have hline := hun c htext
    rw [isLineBreak_eq (hF.toNat_of_mem htext), hc] at hline
    cases hline
  · exact hbreak

/-- A part of a row that is not empty is no blank line. -/
theorem not_blank (hpq : p ++ q = F.dump a) (hp : p ≠ []) : Lines.isBlank p = false := by
  obtain ⟨cs, hcs⟩ := hF.brace a
  cases p with
  | nil => exact absurd rfl hp
  | cons c p =>
    rw [hcs] at hpq
    obtain ⟨rfl, -⟩ := List.cons.inj hpq
    simp [Lines.isBlank, Lines.isSpace]

theorem readLines_whole (a : α) (lines : List (List Char)) :
    readLines F (F.dump a :: lines) = (readLines F lines).map (a :: ·) := by
  have hne : F.dump a ≠ [] := by
    obtain ⟨cs, hcs⟩ := hF.brace a
    simp [hcs]
  rw [readLines, hF.not_blank (List.append_nil _) hne, hF.validate_dump]
  rfl

/-- A line that is a proper part of a row raises. -/
theorem readLines_cut (hpq : p ++ q = F.dump a) (hp : p ≠ []) (hq : q ≠ [])
    (lines : List (List Char)) : readLines F (p :: lines) = .error p := by
  rw [readLines, hF.not_blank hpq hp, hF.cut a p q hpq hq]
  rfl

theorem prefix_ne_nil (h : F.dump a = p ++ c :: q) (hc : Lines.isLineBreak c = true) : p ≠ [] := by
  rintro rfl
  obtain ⟨cs, hcs⟩ := hF.brace a
  rw [hcs] at h
  obtain ⟨rfl, -⟩ := List.cons.inj h
  simp [Lines.isLineBreak] at hc

theorem readLines_textOf (h : ∀ a ∈ rows, Readable F a) :
    readLines F (Lines.splitlines (textOf F rows)) = .ok rows := by
  induction rows with
  | nil => rfl
  | cons a rows ih =>
    have hline := Lines.splitlines_newline (r := textOf F rows)
      (hF.unbroken (h a List.mem_cons_self))
    rw [textOf_cons, hline, hF.readLines_whole, ih fun b hb => h b (List.mem_cons_of_mem _ hb)]
    rfl

theorem readLines_textOf_error (h : ¬ ∀ a ∈ rows, Readable F a) :
    ∃ line, readLines F (Lines.splitlines (textOf F rows)) = .error line := by
  induction rows with
  | nil => exact absurd (by simp) h
  | cons a rows ih =>
    rw [textOf_cons]
    by_cases ha : Readable F a
    · have hrest : ¬ ∀ b ∈ rows, Readable F b := fun hall => h (by simpa [ha] using hall)
      obtain ⟨line, hline⟩ := ih hrest
      refine ⟨line, ?_⟩
      rw [Lines.splitlines_newline (hF.unbroken ha), hF.readLines_whole, hline]
      rfl
    · obtain ⟨p, c, q, hpcq, hp, hc⟩ := hF.broken ha
      obtain ⟨lines, hlines⟩ := Lines.splitlines_break (q := q ++ '\n' :: textOf F rows) hp hc
      refine ⟨p, ?_⟩
      rw [hpcq, List.append_assoc, List.cons_append, hlines]
      exact hF.readLines_cut hpcq.symm (hF.prefix_ne_nil hpcq hc) (List.cons_ne_nil _ _) lines

theorem not_mem_cr (rows : List α) : '\r' ∉ textOf F rows := by
  intro h
  obtain ⟨a, -, ha⟩ := List.mem_flatMap.mp h
  rcases List.mem_append.mp ha with ha | ha
  · exact absurd (hF.toNat_of_mem ha) (by decide)
  · exact absurd (List.mem_singleton.mp ha) (by decide)

/-- Rows come back exactly if all of them are readable. -/
theorem read_textOf_iff (rows : List α) :
    read F (textOf F rows) = .ok rows ↔ ∀ a ∈ rows, Readable F a := by
  rw [read, Lines.universalNewlines_of_not_mem (hF.not_mem_cr rows)]
  refine ⟨fun hok => ?_, hF.readLines_textOf⟩
  by_contra h
  obtain ⟨line, hline⟩ := hF.readLines_textOf_error h
  rw [hline] at hok
  cases hok

end Format.Lawful

end JsonLines
