/-
  Slas.Lib.Patterns

  `search` and `sub` of Python's `re`, for patterns that are given as functions: what a
  pattern matches at a place of a text.  What a search finds, and which characters a
  replacement leaves, follow from what the pattern does at one place.

  `re.split` of a text, and `str.find` in one: the text is the pieces with a match between each
  two of them, `splits_split`.
-/

import Mathlib.Data.List.Basic
import Slas.Lib.Lines

namespace Patterns

/-- A pattern at a place, told the character before it: its group, and what follows the
    match. -/
abbrev Pattern := Option Char → List Char → Option (List Char × List Char)

def searchFrom (m : Pattern) : Option Char → List Char → Option (List Char)
  | prev, [] => (m prev []).map (·.1)
  | prev, c :: cs =>
    match m prev (c :: cs) with
    | some found => some found.1
    | none => searchFrom m (some c) cs

/-- The group of the first match. -/
def search (m : Pattern) (cs : List Char) : Option (List Char) := searchFrom m none cs

/-- From a place on, of which the first characters still belong to a match. -/
def subFrom (m : Pattern) (new : List Char) : Nat → Option Char → List Char → List Char
  | _, _, [] => []
  | k + 1, _, c :: cs => subFrom m new k (some c) cs
  | 0, prev, c :: cs =>
    match m prev (c :: cs) with
    | some found => new ++ subFrom m new (cs.length - found.2.length) (some c) cs
    | none => c :: subFrom m new 0 (some c) cs

/-- Every match, of at least one character, replaced. -/
def sub (m : Pattern) (new cs : List Char) : List Char := subFrom m new 0 none cs

/-! ## Pieces of patterns -/

/-- One letter in any case, with the two letters that have more than two forms. -/
def sameLetter (letter c : Char) : Bool :=
  c.toLower == letter || (letter == 's' && c == 'ſ') || (letter == 'i' && (c == 'İ' || c == 'ı'))

/-- What follows the letters, in any case. -/
def afterLetters : List Char → List Char → Option (List Char)
  | [], cs => some cs
  | _ :: _, [] => none
  | letter :: letters, c :: cs => if sameLetter letter c then afterLetters letters cs else none

/-- `\s+` -/
def spaces : Pattern
  | _, c :: cs => if Lines.isSpace c then some ([], cs.dropWhile Lines.isSpace) else none
  | _, [] => none

/-! ## What is found, and what is left -/

variable {m : Pattern} {new cs g : List Char} {c : Char} {prev : Option Char} {k : Nat}

theorem searchFrom_spec {P : List Char → Prop} (hm : ∀ prev cs g rest, m prev cs = some (g, rest) → P g)
    (h : searchFrom m prev cs = some g) : P g := by
  induction cs generalizing prev with
  | nil =>
    obtain ⟨⟨g', rest⟩, hfound, rfl⟩ := Option.map_eq_some_iff.mp h
    exact hm _ _ _ _ hfound
  | cons c cs ih =>
    rw [searchFrom] at h
    cases hfound : m prev (c :: cs) with
    | none => exact ih (by simpa [hfound] using h)
    | some found =>
      simp only [hfound, Option.some.injEq] at h
      subst h
      exact hm _ _ _ found.2 hfound

/-- What holds of the group of every match holds of what a search finds. -/
theorem search_spec {P : List Char → Prop} (hm : ∀ prev cs g rest, m prev cs = some (g, rest) → P g)
    (h : search m cs = some g) : P g := searchFrom_spec hm h

theorem mem_subFrom (h : c ∈ subFrom m new k prev cs) :
    c ∈ new ∨ (c ∈ cs ∧ ∃ before after, m before (c :: after) = none) := by
  induction cs generalizing k prev with
  | nil => cases k <;> simp [subFrom] at h
  | cons d cs ih =>
    have hlater : ∀ {k prev}, c ∈ subFrom m new k prev cs →
        c ∈ new ∨ (c ∈ d :: cs ∧ ∃ before after, m before (c :: after) = none) :=
      fun h => (ih h).imp id fun ⟨hin, hnone⟩ => ⟨List.mem_cons_of_mem _ hin, hnone⟩
    cases k with
    | succ k => exact hlater h
    | zero =>
      rw [subFrom] at h
      cases hfound : m prev (d :: cs) with
      | none =>
        simp only [hfound, List.mem_cons] at h
        rcases h with rfl | h
        · exact Or.inr ⟨List.mem_cons_self, prev, cs, hfound⟩
        · exact hlater h
      | some found =>
        simp only [hfound, List.mem_append] at h
        exact h.elim Or.inl hlater

/-- What a replacement leaves of the text is what no match begins with. -/
theorem mem_sub (h : c ∈ sub m new cs) :
    c ∈ new ∨ (c ∈ cs ∧ ∃ before after, m before (c :: after) = none) := mem_subFrom h

/-- White space that is replaced by blanks is blanks. -/
theorem eq_blank_of_mem (h : c ∈ sub spaces [' '] cs) (hspace : Lines.isSpace c = true) :
    c = ' ' := by
  rcases mem_sub h with hnew | ⟨-, before, after, hnone⟩
  · exact List.mem_singleton.mp hnew
  · simp [spaces, hspace] at hnone

end Patterns

namespace Patterns

/-! ## Splits -/

variable (m : Pattern)

/-- From a place on, of which the first characters still belong to a match. -/
def splitFrom : Nat → Option Char → List Char → List (List Char)
  | _, _, [] => [[]]
  | skip + 1, _, c :: cs => splitFrom skip (some c) cs
  | 0, prev, c :: cs =>
    match m prev (c :: cs) with
    | some (_, rest) => [] :: splitFrom (cs.length - rest.length) (some c) cs
    | none => (splitFrom 0 (some c) cs).modifyHead (c :: ·)

/-- `split`, at matches of at least one character. -/
def split (cs : List Char) : List (List Char) := splitFrom m 0 none cs

/-- Pieces of a text, with something between each two of them. -/
inductive Splits (P : List Char → Prop) : List (List Char) → List Char → Prop where
  | last (piece : List Char) : Splits P [piece] piece
  | cons (piece : List Char) {sep cs : List Char} {pieces : List (List Char)} (between : P sep)
      (rest : Splits P pieces cs) : Splits P (piece :: pieces) (piece ++ (sep ++ cs))

variable {m} {P : List Char → Prop} {cs : List Char} {pieces : List (List Char)}

theorem Splits.push (c : Char) (h : Splits P pieces cs) :
    Splits P (pieces.modifyHead (c :: ·)) (c :: cs) := by
  cases h with
  | last => exact .last _
  | cons piece between rest => exact .cons (c :: piece) between rest

theorem splitFrom_skip (skip : Nat) (prev : Option Char) (before cs : List Char)
    (h : before.length = skip) : ∃ prev', splitFrom m skip prev (before ++ cs) =
      splitFrom m 0 prev' cs := by
  induction before generalizing skip prev with
  | nil =>
    subst h
    exact ⟨prev, rfl⟩
  | cons c before ih =>
    subst h
    exact ih before.length (some c) rfl

/-- What a match takes of a text is in front of the rest. -/
theorem splits_splitFrom (hm : ∀ prev cs group rest, m prev cs = some (group, rest) →
    cs = group ++ rest ∧ group ≠ [] ∧ P group) (prev : Option Char) (cs : List Char) :
    Splits P (splitFrom m 0 prev cs) cs := by
  induction hn : cs.length using Nat.strongRecOn generalizing prev cs with
  | ind n ih =>
    subst hn
    cases cs with
    | nil => exact .last []
    | cons c cs =>
      rw [splitFrom]
      cases hfound : m prev (c :: cs) with
      | none => exact (ih cs.length (Nat.lt_succ_self _) (some c) cs rfl).push c
      | some found =>
        obtain ⟨group, rest⟩ := found
        obtain ⟨htext, hne, hgroup⟩ := hm _ _ _ _ hfound
        obtain ⟨d, ds, rfl⟩ := List.exists_cons_of_ne_nil hne
        obtain ⟨rfl, hrest⟩ := List.cons.inj htext
        change cs = ds ++ rest at hrest
        subst hrest
        have hlength : ds.length = (ds ++ rest).length - rest.length := by simp
        obtain ⟨prev', hskip⟩ := splitFrom_skip (m := m) _ (some c) ds rest hlength
        dsimp only
        rw [hskip]
        have hless : rest.length < (c :: (ds ++ rest)).length := by
          simp only [List.length_cons, List.length_append]
          omega
        exact .cons [] hgroup (ih rest.length hless prev' rest rfl)

theorem splits_split (hm : ∀ prev cs group rest, m prev cs = some (group, rest) →
    cs = group ++ rest ∧ group ≠ [] ∧ P group) (cs : List Char) : Splits P (split m cs) cs :=
  splits_splitFrom hm none cs

/-! ## Where a part is -/

/-- The first place of a part in a text. -/
def find (part : List Char) : List Char → Option Nat
  | [] => if part = [] then some 0 else none
  | c :: cs => if part <+: c :: cs then some 0 else (find part cs).map (· + 1)

/-- `str.find` from a place on, which counts from the end if it is negative. -/
def findFrom (part text : List Char) (start : Int) : Option Nat :=
  let place := (if start < 0 then start + text.length else start).toNat
  if place ≤ text.length then (find part (text.drop place)).map (place + ·) else none

variable {part text gap tail : List Char}

/-- A part that begins with something that is not in the gap is found after it. -/
theorem find_gap {c : Char} (hgap : c ∉ gap) (part tail : List Char) :
    find (c :: part) (gap ++ (c :: part ++ tail)) = some gap.length := by
  induction gap with
  | nil =>
    rw [List.nil_append, List.cons_append, find, if_pos]
    · rfl
    · exact List.prefix_append (c :: part) tail
  | cons d gap ih =>
    have hne : ¬ c :: part <+: d :: (gap ++ (c :: part ++ tail)) := by
      rintro ⟨rest, heq⟩
      exact hgap (List.mem_cons.mpr (Or.inl (List.cons.inj heq).1))
    rw [List.cons_append, find, if_neg hne, ih fun h => hgap (List.mem_cons_of_mem _ h)]
    rfl

/-- A part is found where it is, or earlier. -/
theorem find_le (part gap tail : List Char) :
    ∃ i, find part (gap ++ (part ++ tail)) = some i ∧ i ≤ gap.length := by
  induction gap with
  | nil =>
    refine ⟨0, ?_, Nat.le_refl 0⟩
    rw [List.nil_append]
    cases hcs : part ++ tail with
    | nil => rw [find, if_pos (List.append_eq_nil_iff.mp hcs).1]
    | cons c cs => rw [find, if_pos (hcs ▸ List.prefix_append part tail)]
  | cons d gap ih =>
    obtain ⟨i, hi, hle⟩ := ih
    rw [List.cons_append, find]
    split_ifs
    · exact ⟨0, rfl, Nat.zero_le _⟩
    · exact ⟨i + 1, by rw [hi]; rfl, Nat.succ_le_succ hle⟩

theorem findFrom_append (part before after : List Char) :
    findFrom part (before ++ after) before.length =
      (find part after).map (before.length + ·) := by
  have hnonneg : ¬ (before.length : Int) < 0 := by omega
  unfold findFrom
  rw [if_neg hnonneg, Int.toNat_natCast]
  dsimp only
  rw [if_pos (by simp), List.drop_left]

end Patterns
