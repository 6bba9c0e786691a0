/-
  Slas.Skills.Conditions

  What conditions come to.  A condition is decided by what its references name
  (`decides_congr`).  There is no negation in the language: `not` before a condition is
  a part of its left side (`decides_not`).
-/

import Slas.Skills.Rendering
import Slas.Skills.Runner

namespace Slas

open Placeholders (scan)

namespace Skills

variable {P : Python} {look look' : String → Option Json} {source source' : String}

/-- Whether a condition is found to hold; one that cannot be evaluated is not. -/
def decides (P : Python) (look : String → Option Json) (condition : String) : Bool :=
  match evaluate P look "" condition with
  | .ok b => b
  | .error _ => false

/-- What a condition comes to depends on what its references name. -/
theorem evaluate_congr {condition : String}
    (h : ∀ name ∈ references P condition, look name = look' name) {b : Bool}
    (hb : evaluate P look source condition = .ok b) :
    evaluate P look' source' condition = .ok b := by
  unfold evaluate at hb ⊢
  cases hrender : render P look source condition with
  | error e => simp [hrender] at hb
  | ok value =>
    rw [hrender] at hb
    rw [render_congr h hrender]
    cases value with
    | str rendered =>
      simp only [evaluateText] at hb ⊢
      split at hb
      · exact hb
      · split at hb
        · exact hb
        · cases hb
    | null => exact hb
    | bool _ => exact hb
    | num _ => exact hb
    | arr _ => exact hb
    | obj _ => exact hb

instance {condition : String} {b : Bool} :
    Decidable (evaluate P look source condition = .ok b) :=
  decidable_of_iff ((evaluate P look source condition).toOption = some b)
    (by cases evaluate P look source condition <;> simp [Except.toOption])

theorem evaluate_iff {condition : String}
    (h : ∀ name ∈ references P condition, look name = look' name) {b : Bool} :
    evaluate P look source condition = .ok b ↔ evaluate P look' source' condition = .ok b :=
  ⟨evaluate_congr h, evaluate_congr fun name hin => (h name hin).symm⟩

theorem decides_eq_true (source : String) {condition : String} :
    decides P look condition = true ↔ evaluate P look source condition = .ok true := by
  have hsource : evaluate P look source condition = .ok true ↔
      evaluate P look "" condition = .ok true := evaluate_iff fun _ _ => rfl
  rw [hsource]
  unfold decides
  split <;> simp_all

theorem decides_congr {condition : String}
    (h : ∀ name ∈ references P condition, look name = look' name) :
    decides P look condition = decides P look' condition := by
  rw [Bool.eq_iff_iff, decides_eq_true "", decides_eq_true ""]
  exact evaluate_iff h

theorem holds_eq {condition : String} {context : Bindings} {step : Step} :
    holds P condition context step = decides P (find context) condition := by
  rw [Bool.eq_iff_iff, decides_eq_true (stepSource step)]
  unfold holds
  split <;> simp_all

/-- The guard of a step, with its values looked up by a function. -/
def guardDecides (P : Python) (look : String → Option Json) : Option String → Bool
  | none => true
  | some condition => condition == "" || decides P look condition

theorem guardHolds_eq {context : Bindings} {step : Step} :
    guardHolds P context step = guardDecides P (find context) step.when := by
  unfold guardHolds guardDecides
  cases step.when with
  | none => rfl
  | some condition => simp only [holds_eq]

/-! ## `not` -/

theorem rdropWhile_append_cons {α : Type} {p : α → Bool} {x : α} (h : p x = false)
    (pre post : List α) : (pre ++ x :: post).rdropWhile p = pre ++ x :: post.rdropWhile p := by
  induction post using List.reverseRecOn with
  | nil =>
    rw [List.rdropWhile_concat_neg p pre x (by simp [h])]
    simp
  | append_singleton post y ih =>
    rw [← List.cons_append, ← List.append_assoc]
    cases hy : p y with
    | true => rw [List.rdropWhile_concat_pos p _ y hy, List.rdropWhile_concat_pos p _ y hy, ih]
    | false =>
      rw [List.rdropWhile_concat_neg p _ y (by simp [hy]),
        List.rdropWhile_concat_neg p _ y (by simp [hy])]
      simp

/-- A text that begins with `not` still does without the space after it. -/
theorem stripChars_not (cs : List Char) :
    stripChars ('n' :: 'o' :: 't' :: cs) = 'n' :: 'o' :: 't' :: cs.rdropWhile isSpace := by
  have hlead : isSpace 'n' = false := by decide
  have hlast : isSpace 't' = false := by decide
  rw [stripChars, List.dropWhile_cons_of_neg (by simp [hlead])]
  exact rdropWhile_append_cons hlast ['n', 'o'] cs

/-- It is no number and none of the words that stand for values. -/
theorem operand_not (cs : List Char) : operand P ('n' :: 'o' :: 't' :: cs) =
    .text (stripChars ('n' :: 'o' :: 't' :: cs)) := by
  have hnumber : P.number (String.ofList ('n' :: 'o' :: 't' :: cs.rdropWhile isSpace)) = none := by
    cases hn : P.number (String.ofList ('n' :: 'o' :: 't' :: cs.rdropWhile isSpace)) with
    | none => rfl
    | some x =>
      have hchars := P.number_chars _ x hn 'o' (by simp)
      exact absurd rfl hchars.1
  have hn : Char.toLower 'n' = 'n' := by decide
  have ho : Char.toLower 'o' = 'o' := by decide
  have ht : Char.toLower 't' = 't' := by decide
  unfold operand
  simp only [stripChars_not, hnumber]
  simp [lowerIs, hn, ho, ht]

theorem truthyText_not (cs : List Char) : truthyText ('n' :: 'o' :: 't' :: cs) = true := by
  have hn : Char.toLower 'n' = 'n' := by decide
  have ho : Char.toLower 'o' = 'o' := by decide
  have ht : Char.toLower 't' = 't' := by decide
  unfold truthyText
  simp only [stripChars_not]
  simp [lowerIs, hn, ho, ht]

/-- What is to the left of a sign goes on from what was read before. -/
theorem readComparison_left {left cs left' right : List Char} {sign : Sign}
    (h : readComparison left cs = some (left', sign, right)) : left <+: left' := by
  induction cs generalizing left with
  | nil => simp [readComparison_nil] at h
  | cons c cs ih =>
    rw [readComparison_cons] at h
    split at h
    · cases h
      exact List.prefix_rfl
    · split at h
      · cases h
      · exact (List.prefix_append left [c]).trans (ih h)

theorem readComparison_letter {c : Char} (hc : c = 'n' ∨ c = 'o' ∨ c = 't') (left cs : List Char) :
    readComparison left (c :: cs) = readComparison (left ++ [c]) cs := by
  have hspace : isSpace c = false := by rcases hc with rfl | rfl | rfl <;> decide
  have hline : c ≠ '\n' := by rcases hc with rfl | rfl | rfl <;> decide
  have hsign : signHere (c :: cs) = none := by
    rw [signHere, List.dropWhile_cons_of_neg (by simp [hspace])]
    rcases hc with rfl | rfl | rfl <;> rfl
  rw [readComparison_cons, hsign]
  exact if_neg hline

theorem readComparison_not (cs : List Char) :
    readComparison [] ('n' :: 'o' :: 't' :: cs) = readComparison ['n', 'o', 't'] cs := by
  rw [readComparison_letter (by simp), readComparison_letter (by simp),
    readComparison_letter (by simp)]
  rfl

/-- What the runner makes of a text after `not`: it holds when there is no comparison in
    it; in a comparison, the left side is the text that begins with `not`. -/
def readNot (P : Python) (text : List Char) : Bool :=
  match readComparison ['n', 'o', 't'] ((' ' :: text).rdropWhile isSpace) with
  | none => true
  | some (left, sign, right) =>
    match operand P right with
    | .text y =>
      match sign with
      | .eq => stripChars left == y
      | .ne => stripChars left != y
      | .lt => decide (stripChars left < y)
      | .le => !decide (y < stripChars left)
      | .gt => decide (y < stripChars left)
      | .ge => !decide (stripChars left < y)
    | _ => sign == .ne

theorem evaluateText_not (text : List Char) :
    (match evaluateText P source ('n' :: 'o' :: 't' :: ' ' :: text) with
      | .ok b => b
      | .error _ => false) = readNot P text := by
  unfold evaluateText readNot
  rw [stripChars_not, readComparison_not]
  cases hread : readComparison ['n', 'o', 't'] ((' ' :: text).rdropWhile isSpace) with
  | none =>
    simp only [operand_not, Operand.truthy, stripChars_not]
    exact truthyText_not _
  | some found =>
    obtain ⟨left, sign, right⟩ := found
    obtain ⟨rest, rfl⟩ := readComparison_left hread
    have hleft : operand P (['n', 'o', 't'] ++ rest) = .text (stripChars (['n', 'o', 't'] ++ rest)) :=
      operand_not rest
    simp only [hleft]
    -- a text is compared with a text; with anything else it differs, and has no order
    cases hright : operand P right with
    | text y => cases sign <;> rfl
    | bool b => cases sign <;> rfl
    | none => cases sign <;> rfl
    | number x => cases sign <;> rfl

/-- What is filled in after plain text. -/
theorem fillText_append {cs : List Char} (h : '\x7b' ∉ cs) (text : List Char) :
    fillText P look source (cs ++ text) = (fillText P look source text).map (cs ++ ·) := by
  unfold fillText
  rw [scan_other h, Placeholders.subst_append, Placeholders.subst_plain]

/-- How the runner decides `not` before a condition. -/
theorem decides_not (condition : String) : decides P look ("not " ++ condition) =
    match fillText P look "" condition.toList with
    | .ok text => readNot P text
    | .error _ => false := by
  have htext : ("not " ++ condition).toList = ['n', 'o', 't', ' '] ++ condition.toList := by
    simp [String.toList_append]
  have hwhole : whole P ("not " ++ condition) = none := by
    have hread : readPlaceholder P (stripChars ("not " ++ condition).toList) = none := by
      have hn : 'n' ≠ '\x7b' := by decide
      rw [htext]
      change readPlaceholder P (stripChars ('n' :: 'o' :: 't' :: ' ' :: condition.toList)) = none
      rw [stripChars_not]
      exact readPlaceholder_other (P := P) hn
        ('o' :: 't' :: (' ' :: condition.toList).rdropWhile isSpace)
    simp only [whole, hread]
  have hfill : fillText P look "" ("not " ++ condition).toList =
      (fillText P look "" condition.toList).map (['n', 'o', 't', ' '] ++ ·) := by
    rw [htext]
    exact fillText_append (by decide) _
  unfold decides evaluate
  rw [render_of_not_whole hwhole, hfill]
  cases fillText P look "" condition.toList with
  | error e => rfl
  | ok text =>
    simp only [Except.map, String.toList_ofList]
    exact evaluateText_not text

end Skills

end Slas
