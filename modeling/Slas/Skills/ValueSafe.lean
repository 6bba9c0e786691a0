/-
  Slas.Skills.ValueSafe

  A value compared with a literal: `{{ name }} == 'literal'`, and the same with `!=`.

  The value is put into the text of the condition before the condition is read, so it is
  read like the rest: `value_safe_iff` says which values are compared as they are.  A
  literal here is a text without placeholders; quotes in it do no harm.
-/

import Mathlib.Data.List.Infix
import Slas.Lib.Text
import Slas.Skills.Conditions

namespace Slas

open Placeholders (scan refs plain)

namespace Skills

variable {P : Python} {look : String → Option Json} {source name value literal : String}
  {cs v s : List Char} {c : Char}

/-! ## The condition -/

/-- `==`, or else `!=`. -/
def signOf (same : Bool) : Sign := if same then .eq else .ne

def signStart (same : Bool) : Char := if same then '=' else '!'

/-- A literal in its quotes. -/
def quoted (s : List Char) : List Char := '\x27' :: (s ++ ['\x27'])

/-- What follows the value in the condition. -/
def test (same : Bool) (s : List Char) : List Char :=
  ' ' :: signStart same :: '=' :: ' ' :: quoted s

/-- `{{ name }} == 'literal'`, or with `!=`. -/
def comparing (same : Bool) (name literal : String) : String :=
  String.ofList ("\x7b\x7b ".toList ++ name.toList ++ " \x7d\x7d".toList ++
    test same literal.toList)

/-- A name that a placeholder can have. -/
def IsName (P : Python) (name : String) : Prop :=
  ∃ c body, name = String.ofList (c :: body) ∧ isNameStart c = true ∧
    ∀ x ∈ body, isNameChar P x = true

/-- One line, and no placeholder. -/
structure Literal (P : Python) (literal : String) : Prop where
  line : '\n' ∉ literal.toList
  plain : references P literal = []

/-- The value equals the literal exactly when `==` holds, and `!=` is its complement. -/
def Safe (P : Python) (value literal : String) : Prop :=
  ∀ look source name, IsName P name → look name = some (.str value) →
    evaluate P look source (comparing true name literal) = .ok (decide (value = literal)) ∧
    evaluate P look source (comparing false name literal) = .ok (decide (value ≠ literal))

/-! ## Rendering -/

theorem refs_cons_char {ps : List (Placeholders.Piece String)} :
    refs (.char c :: ps) = refs ps := rfl

/-- Without placeholders, none begins anywhere. -/
theorem scan_eq_plain_iff : refs (scan (placeholder P) cs) = [] ↔
    ∀ ds, ds <:+ cs → readPlaceholder P ds = none := by
  induction cs using Placeholders.scan_induction (R := placeholder P) with
  | nil =>
    refine iff_of_true rfl fun ds hds => ?_
    rw [List.suffix_nil.mp hds]
    rfl
  | char c cs hread ih =>
    rw [Placeholders.scan_char hread, refs_cons_char, ih]
    constructor
    · intro h ds hds
      rcases List.suffix_cons_iff.mp hds with rfl | hds
      · exact hread
      · exact h ds hds
    · exact fun h ds hds => h ds (hds.trans (List.suffix_cons c cs))
  | ref raw a rest hread =>
    rw [Placeholders.scan_ref hread]
    refine iff_of_false (by simp [refs]) fun h => ?_
    have hnone := h _ List.suffix_rfl
    exact absurd (hread.symm.trans hnone) (by simp)

theorem subst_of_refs {ε : Type} {f : List Char → String → Except ε (List Char)}
    (h : refs (scan (placeholder P) cs) = []) :
    Placeholders.subst f (scan (placeholder P) cs) = .ok cs := by
  induction cs using Placeholders.scan_induction (R := placeholder P) with
  | nil => rfl
  | char c cs hread ih =>
    rw [Placeholders.scan_char hread, refs_cons_char] at h
    rw [Placeholders.scan_char hread, Placeholders.subst, ih h]
    rfl
  | ref raw a rest hread =>
    rw [Placeholders.scan_ref hread] at h
    simp [refs] at h

/-- A placeholder ends with a brace. -/
theorem IsPlaceholder.getLast? {raw : List Char} (h : IsPlaceholder P raw name) :
    raw.getLast? = some '\x7d' := by
  obtain ⟨lead, c, body, trail, -, -, -, -, -, rfl⟩ := h
  have hshape : '\x7b' :: '\x7b' :: (lead ++ (c :: body) ++ trail ++ ['\x7d', '\x7d']) =
      ('\x7b' :: '\x7b' :: (lead ++ (c :: body) ++ trail ++ ['\x7d'])) ++ ['\x7d'] := by simp
  rw [hshape, List.getLast?_concat]

theorem readPlaceholder_append_quote (h : readPlaceholder P cs = none) :
    readPlaceholder P (cs ++ ['\x27']) = none := by
  cases hread : readPlaceholder P (cs ++ ['\x27']) with
  | none => rfl
  | some found =>
    obtain ⟨raw, name⟩ := found
    obtain ⟨hraw, hstarts⟩ := readPlaceholder_iff.mp hread
    have hin : raw <+: cs := by
      rcases List.prefix_concat_iff.mp hstarts with heq | hin
      · have hlast := hraw.getLast?
        rw [heq, List.getLast?_concat] at hlast
        cases hlast
      · exact hin
    have hhere := readPlaceholder_iff.mpr ⟨hraw, hin⟩
    rw [h] at hhere
    cases hhere

/-- The condition after the value has no placeholder. -/
theorem refs_test {same : Bool} (h : references P literal = []) :
    refs (scan (placeholder P) (test same literal.toList)) = [] := by
  have hbrace : '\x7b' ∉ [' ', signStart same, '=', ' ', '\x27'] := by
    cases same <;> decide
  have hparts : test same literal.toList =
      [' ', signStart same, '=', ' ', '\x27'] ++ (literal.toList ++ ['\x27']) := rfl
  rw [hparts, scan_other hbrace, Placeholders.refs_append, Placeholders.refs_plain,
    List.nil_append, scan_eq_plain_iff]
  intro ds hds
  rcases List.suffix_concat_iff.mp hds with rfl | ⟨rest, rfl, hrest⟩
  · rfl
  · exact readPlaceholder_append_quote (scan_eq_plain_iff.mp h rest hrest)

theorem dropWhile_concat {q : Char} (hq : isSpace q = false) (cs : List Char) :
    (cs ++ [q]).dropWhile isSpace = cs.dropWhile isSpace ++ [q] := by
  rw [List.dropWhile_append]
  split
  · rename_i hempty
    rw [List.isEmpty_iff.mp hempty]
    simp [hq]
  · rfl

/-- A text that ends with a quote ends with it when it is stripped. -/
theorem strip_test {same : Bool} :
    stripChars (cs ++ test same s) =
      (cs ++ ' ' :: signStart same :: '=' :: ' ' :: '\x27' :: s).dropWhile isSpace ++ ['\x27'] := by
  have hquote : isSpace '\x27' = false := by decide
  have hparts : cs ++ test same s =
      (cs ++ ' ' :: signStart same :: '=' :: ' ' :: '\x27' :: s) ++ ['\x27'] := by
    simp [test, quoted]
  rw [hparts, stripChars, dropWhile_concat hquote,
    List.rdropWhile_concat_neg isSpace _ _ (by simp [hquote])]

/-- The value is put in the place of its name. -/
theorem evaluate_comparing {same : Bool} (hname : IsName P name)
    (hlook : look name = some (.str value)) (hliteral : references P literal = []) :
    evaluate P look source (comparing same name literal) =
      evaluateText P source (value.toList ++ test same literal.toList) := by
  obtain ⟨c, body, rfl, hstart, hbody⟩ := hname
  have hblank : ∀ x ∈ [' '], isSpace x = true := by
    intro x hx
    rw [List.mem_singleton.mp hx]
    decide
  have hraw : IsPlaceholder P
      ("\x7b\x7b ".toList ++ (c :: body) ++ " \x7d\x7d".toList) (String.ofList (c :: body)) := by
    exact ⟨[' '], c, body, [' '], hblank, hstart, hbody, hblank, rfl, by simp⟩
  have hread : (placeholder P).read ("\x7b\x7b ".toList ++ (c :: body) ++ " \x7d\x7d".toList ++
      test same literal.toList) =
      some ("\x7b\x7b ".toList ++ (c :: body) ++ " \x7d\x7d".toList, String.ofList (c :: body)) :=
    readPlaceholder_iff.mpr ⟨hraw, List.prefix_append ..⟩
  have htext : (comparing same (String.ofList (c :: body)) literal).toList =
      "\x7b\x7b ".toList ++ (c :: body) ++ " \x7d\x7d".toList ++ test same literal.toList := by
    simp [comparing]
  have hwhole : whole P (comparing same (String.ofList (c :: body)) literal) = none := by
    unfold whole
    rw [htext]
    split
    · rename_i raw found hfound
      refine if_neg fun heq => ?_
      have hlast := (readPlaceholder_iff.mp hfound).1.getLast?
      rw [heq, strip_test, List.getLast?_concat] at hlast
      cases hlast
    · rfl
  have hfill : fillText P look source (comparing same (String.ofList (c :: body)) literal).toList =
      .ok (value.toList ++ test same literal.toList) := by
    rw [fillText, htext, Placeholders.scan_ref hread]
    simp only [Placeholders.subst, fill, hlook, Python.str_str, subst_of_refs (refs_test hliteral)]
    rfl
  unfold evaluate
  rw [render_of_not_whole hwhole, hfill]
  simp [Except.map]

/-! ## Where the sign stands -/

theorem readSign_two (a b : Char) (cs : List Char) : readSign (a :: b :: cs) =
    if b = '=' then
      if a = '=' then some (.eq, cs) else if a = '!' then some (.ne, cs)
      else if a = '<' then some (.le, cs) else if a = '>' then some (.ge, cs) else none
    else if a = '<' then some (.lt, b :: cs) else if a = '>' then some (.gt, b :: cs) else none := by
  unfold readSign
  split
  · rename_i h; cases h; simp
  · rename_i h; cases h; simp
  · rename_i h; cases h; simp
  · rename_i h; cases h; simp
  · rename_i hne h
    cases h
    have hb : b ≠ '=' := by
      rintro rfl
      exact hne _ rfl
    simp [hb]
  · rename_i hne h
    cases h
    have hb : b ≠ '=' := by
      rintro rfl
      exact hne _ rfl
    simp [hb]
  · rename_i h1 h2 h3 h4 h5 h6
    split_ifs <;> simp_all

theorem readSign_blank (ds cs : List Char) :
    readSign (ds ++ ' ' :: cs) = (readSign ds).map fun p => (p.1, p.2 ++ ' ' :: cs) := by
  rcases ds with _ | ⟨a, _ | ⟨b, ds⟩⟩
  · rfl
  · rw [List.cons_append, List.nil_append, readSign_two]
    have hblank : ' ' ≠ '=' := by decide
    rw [if_neg hblank]
    by_cases hlt : a = '<'
    · subst hlt; rfl
    · by_cases hgt : a = '>'
      · subst hgt; rfl
      · rw [if_neg hlt, if_neg hgt]
        unfold readSign
        split <;> simp_all
  · rw [List.cons_append, List.cons_append, readSign_two, readSign_two]
    split_ifs <;> rfl
theorem readSign_suffix {ds rest : List Char} {sign : Sign} (h : readSign ds = some (sign, rest)) :
    rest <:+ ds := by
  unfold readSign at h
  split at h <;> cases h
  all_goals first
    | exact List.suffix_cons _ _
    | exact (List.suffix_cons _ _).trans (List.suffix_cons _ _)

/-- No comparison sign begins anywhere. -/
def SignFree (v : List Char) : Prop := ∀ ds, ds <:+ v → readSign ds = none

theorem newline_not_mem_test {same : Bool} (h : '\n' ∉ s) : '\n' ∉ test same s := by
  cases same <;> simp [test, quoted, signStart, h]

theorem signHere_blanks {same : Bool} (hs : '\n' ∉ s) (h : cs.dropWhile isSpace = []) :
    signHere (cs ++ test same s) = some (signOf same, quoted s) := by
  have hquote : isSpace '\x27' = false := by decide
  have hblank : isSpace ' ' = true := by decide
  have hline : '\n' ∉ quoted s := by simpa [quoted] using hs
  have hdrop : (cs ++ test same s).dropWhile isSpace =
      signStart same :: '=' :: ' ' :: quoted s := by
    rw [List.dropWhile_append, h]
    cases same <;> rfl
  have hrest : (' ' :: quoted s).dropWhile isSpace = quoted s := by
    simp [quoted, hquote, hblank]
  unfold signHere
  rw [hdrop]
  cases same <;> simp only [signStart, readSign, signOf, hrest, if_neg hline, if_true, if_false,
    Bool.false_eq_true]

theorem signHere_value {same : Bool} (hs : '\n' ∉ s) (hcs : '\n' ∉ cs)
    (h : cs.dropWhile isSpace ≠ []) :
    signHere (cs ++ test same s) = (readSign (cs.dropWhile isSpace)).map fun p =>
      (p.1, (p.2 ++ test same s).dropWhile isSpace) := by
  have hdrop : (cs ++ test same s).dropWhile isSpace = cs.dropWhile isSpace ++ test same s := by
    rw [List.dropWhile_append, if_neg (by simpa using h)]
  unfold signHere
  rw [hdrop]
  have hread : readSign (cs.dropWhile isSpace ++ test same s) = _ := readSign_blank _ _
  rw [hread]
  cases hsign : readSign (cs.dropWhile isSpace) with
  | none => rfl
  | some found =>
    obtain ⟨sign, rest⟩ := found
    have hline : '\n' ∉ (rest ++ test same s).dropWhile isSpace := by
      intro hin
      rcases List.mem_append.mp ((List.dropWhile_sublist _).subset hin) with hin | hin
      · exact hcs ((List.dropWhile_sublist _).subset ((readSign_suffix hsign).subset hin))
      · exact newline_not_mem_test hs hin
    exact if_neg hline

theorem rdropWhile_cons {p : Char → Bool} (c : Char) (cs : List Char) :
    (c :: cs).rdropWhile p =
      if cs.rdropWhile p = [] then if p c then [] else [c] else c :: cs.rdropWhile p := by
  simp only [List.rdropWhile, List.reverse_cons, List.dropWhile_append, List.isEmpty_iff,
    List.reverse_eq_nil_iff]
  by_cases hnone : cs.reverse.dropWhile p = []
  · cases hc : p c <;> simp [hnone, hc]
  · simp [hnone]

/-- In a value without signs the first sign is the one after it. -/
theorem read_free {same : Bool} (hs : '\n' ∉ s) (left : List Char) (hcs : '\n' ∉ cs)
    (hfree : SignFree cs) :
    readComparison left (cs ++ test same s) =
      some (left ++ cs.rdropWhile isSpace, signOf same, quoted s) := by
  induction cs generalizing left with
  | nil =>
    have hhere : signHere ([] ++ test same s) = some (signOf same, quoted s) :=
      signHere_blanks hs rfl
    rw [List.nil_append] at hhere
    rw [List.nil_append, test, readComparison_cons, ← test, hhere]
    simp
  | cons c cs ih =>
    rw [List.cons_append, readComparison_cons, ← List.cons_append]
    by_cases hblank : (c :: cs).dropWhile isSpace = []
    · have hall : (c :: cs).rdropWhile isSpace = [] := by
        rw [List.rdropWhile_eq_nil_iff]
        exact List.dropWhile_eq_nil_iff.mp hblank
      rw [signHere_blanks hs hblank, hall, List.append_nil]
    · have hsign : readSign ((c :: cs).dropWhile isSpace) = none :=
        hfree _ (List.dropWhile_suffix _)
      have hc : c ≠ '\n' := fun heq => hcs (heq ▸ List.mem_cons_self)
      rw [signHere_value hs hcs hblank, hsign, Option.map_none]
      simp only [if_neg hc]
      rw [ih _ (fun hin => hcs (List.mem_cons_of_mem _ hin))
        fun ds hds => hfree ds (hds.trans (List.suffix_cons _ _))]
      -- something that is no white space follows
      have htail : (c :: cs).rdropWhile isSpace = c :: cs.rdropWhile isSpace := by
        rw [rdropWhile_cons]
        split_ifs with hnone hspace
        · refine absurd (List.dropWhile_eq_nil_iff.mpr fun d hd => ?_) hblank
          rcases List.mem_cons.mp hd with rfl | hd
          · exact hspace
          · exact List.rdropWhile_eq_nil_iff.mp hnone d hd
        · rw [hnone]
        · rfl
      rw [htail]
      simp

theorem readSign_head {ds : List Char} (h : readSign (c :: ds) ≠ none) :
    c = '=' ∨ c = '!' ∨ c = '<' ∨ c = '>' := by
  unfold readSign at h
  split at h
  all_goals first
    | rename_i heq
      cases heq
      simp
    | exact absurd rfl h

/-- No sign begins with white space. -/
theorem readSign_space {ds : List Char} (h : isSpace c = true) : readSign (c :: ds) = none := by
  by_contra hne
  rcases readSign_head hne with rfl | rfl | rfl | rfl <;> revert h <;> decide

theorem signFree_blanks {blanks : List Char} (h : ∀ d ∈ blanks, isSpace d = true)
    (hfree : SignFree cs) : SignFree (blanks ++ cs) := by
  induction blanks with
  | nil => exact hfree
  | cons c blanks ih =>
    intro ds hds
    rw [List.cons_append] at hds
    rcases List.suffix_cons_iff.mp hds with rfl | hds
    · exact readSign_space (h c List.mem_cons_self)
    · exact ih (fun d hd => h d (List.mem_cons_of_mem _ hd)) ds hds

theorem signFree_of_blank (h : ∀ d ∈ cs, isSpace d = true) : SignFree cs := by
  have hnil : SignFree [] := fun ds hds => by
    rw [List.suffix_nil.mp hds]
    rfl
  simpa using signFree_blanks h hnil

/-- A value with signs is cut at the first of them, whatever follows it. -/
theorem read_sign (left : List Char) (hcs : '\n' ∉ cs) (hsign : ¬ SignFree cs) :
    ∃ pre sign rest, ∀ same s, '\n' ∉ s → readComparison left (cs ++ test same s) =
      some (left ++ pre, sign, (rest ++ test same s).dropWhile isSpace) := by
  induction cs generalizing left with
  | nil => exact absurd (signFree_of_blank (by simp)) hsign
  | cons c cs ih =>
    have hblank : (c :: cs).dropWhile isSpace ≠ [] := fun hnil =>
      hsign (signFree_of_blank (List.dropWhile_eq_nil_iff.mp hnil))
    cases hread : readSign ((c :: cs).dropWhile isSpace) with
    | some found =>
      obtain ⟨sign, rest⟩ := found
      refine ⟨[], sign, rest, fun same s hs => ?_⟩
      rw [List.cons_append, readComparison_cons, ← List.cons_append,
        signHere_value hs hcs hblank, hread]
      simp
    | none =>
      have hc : c ≠ '\n' := fun heq => hcs (heq ▸ List.mem_cons_self)
      have hrest : ¬ SignFree cs := by
        refine fun hfree => hsign fun ds hds => ?_
        rcases List.suffix_cons_iff.mp hds with rfl | hds
        · cases hspace : isSpace c with
          | true => exact readSign_space hspace
          | false =>
            rwa [List.dropWhile_cons_of_neg (by simp [hspace])] at hread
        · exact hfree ds hds
      obtain ⟨pre, sign, rest, hfound⟩ := ih (left ++ [c])
        (fun hin => hcs (List.mem_cons_of_mem _ hin)) hrest
      refine ⟨c :: pre, sign, rest, fun same s hs => ?_⟩
      rw [List.cons_append, readComparison_cons, ← List.cons_append,
        signHere_value hs hcs hblank, hread, Option.map_none]
      simp only [if_neg hc]
      rw [hfound same s hs]
      simp

/-! ## The sides -/

theorem strip_concat {q : Char} (hq : isSpace q = false) (cs : List Char) :
    stripChars (cs ++ [q]) = cs.dropWhile isSpace ++ [q] := by
  rw [stripChars, dropWhile_concat hq, List.rdropWhile_concat_neg isSpace _ _ (by simp [hq])]

theorem strip_quoted : stripChars (quoted s) = quoted s := by
  have hquote : isSpace '\x27' = false := by decide
  have hparts : quoted s = ('\x27' :: s) ++ ['\x27'] := rfl
  rw [hparts, strip_concat hquote, List.dropWhile_cons_of_neg (by simp [hquote])]

/-- A literal in quotes is read as it is. -/
theorem operand_quoted : operand P (quoted s) = .text s := by
  unfold operand
  dsimp only
  rw [strip_quoted, if_pos]
  · simp [quoted]
  · refine ⟨by simp [quoted], ?_, Or.inr rfl⟩
    have hparts : quoted s = ('\x27' :: s) ++ ['\x27'] := rfl
    rw [hparts, List.getLast?_concat]
    rfl

theorem strip_strip : stripChars (stripChars v) = stripChars v := Text.stripBy_stripBy

/-- Only what is between white space is read. -/
theorem operand_strip : operand P (stripChars v) = operand P v := by
  unfold operand
  simp only [strip_strip]

theorem operand_congr {w : List Char} (h : stripChars v = stripChars w) :
    operand P v = operand P w := by
  rw [← operand_strip, h, operand_strip]

/-- A text with a quote in it is no word that stands for a value. -/
theorem lowerIs_quote (word : String) (hword : '\x27' ∉ word.toList) (h : '\x27' ∈ cs) :
    lowerIs word cs = false := by
  rw [lowerIs, beq_eq_false_iff_ne]
  intro heq
  have hlower : Char.toLower '\x27' = '\x27' := by decide
  refine hword (heq ▸ List.mem_map.mpr ⟨_, h, hlower⟩)

/-- A text that ends with a quote and does not begin with one. -/
theorem operand_text (hnumber : ∀ text : String, '\x27' ∈ text.toList → P.number text = none)
    (hlast : (stripChars cs).getLast? = some '\x27') (hhead : (stripChars cs).head? ≠ some '\x27') :
    operand P cs = .text (stripChars cs) := by
  have hin : '\x27' ∈ stripChars cs := List.mem_of_getLast? hlast
  have hplain : ¬ (2 ≤ (stripChars cs).length ∧ (stripChars cs).head? = (stripChars cs).getLast? ∧
      ((stripChars cs).head? = some '\x22' ∨ (stripChars cs).head? = some '\x27')) :=
    fun h => hhead (h.2.1.trans hlast)
  have hnone : P.number (String.ofList (stripChars cs)) = none := hnumber _ (by simpa using hin)
  unfold operand
  simp only [if_neg hplain, lowerIs_quote "true" (by decide) hin,
    lowerIs_quote "false" (by decide) hin, lowerIs_quote "none" (by decide) hin,
    lowerIs_quote "null" (by decide) hin, hnone, Bool.or_false, Bool.false_eq_true,
    if_false]

/-- What stands after a sign in a value: a text, and the sign of the condition is in it. -/
theorem operand_rest (hnumber : ∀ text : String, '\x27' ∈ text.toList → P.number text = none)
    (rest : List Char) : ∃ (before : List Char) (after : List Char → List Char), ∀ same s,
      operand P ((rest ++ test same s).dropWhile isSpace) =
        .text (before ++ signStart same :: after s) := by
  have hstart : ∀ same, isSpace (signStart same) = false := by decide
  have hpick : ∀ same, signStart same ≠ '\x27' := by decide
  -- the text without the white space around it
  have hstrip : ∀ same s, stripChars ((rest ++ test same s).dropWhile isSpace) =
      (rest ++ [' ']).dropWhile isSpace ++ signStart same :: '=' :: ' ' :: quoted s := by
    intro same s
    have htail : (' ' :: signStart same :: '=' :: ' ' :: '\x27' :: s).dropWhile isSpace =
        signStart same :: '=' :: ' ' :: '\x27' :: s := by
      rw [List.dropWhile_cons_of_pos (by decide),
        List.dropWhile_cons_of_neg (by simp [hstart same])]
    have hidem : stripChars ((rest ++ test same s).dropWhile isSpace) =
        stripChars (rest ++ test same s) := by
      rw [stripChars, stripChars, List.dropWhile_idempotent]
    have hblank : [' '].dropWhile isSpace = [] := by decide
    rw [hidem, strip_test, List.dropWhile_append, List.dropWhile_append, htail, hblank]
    split <;> simp [quoted]
  have hquoted : ∀ (cs : List Char) same s,
      (cs ++ signStart same :: '=' :: ' ' :: quoted s).getLast? = some '\x27' := by
    intro cs same s
    have hparts : cs ++ signStart same :: '=' :: ' ' :: quoted s =
        (cs ++ signStart same :: '=' :: ' ' :: '\x27' :: s) ++ ['\x27'] := by simp [quoted]
    rw [hparts, List.getLast?_concat]
  cases hpre : (rest ++ [' ']).dropWhile isSpace with
  | nil =>
    rw [hpre] at hstrip
    refine ⟨[], fun s => '=' :: ' ' :: quoted s, fun same s => ?_⟩
    have htext := operand_text (P := P) hnumber (by rw [hstrip same s]; exact hquoted [] same s)
      (by rw [hstrip same s]; simpa using hpick same)
    rw [htext, hstrip same s]
  | cons d pre =>
    rw [hpre] at hstrip
    by_cases hd : d = '\x27'
    · -- the value brings the first quote, and the condition the last
      subst hd
      refine ⟨pre, fun s => '=' :: ' ' :: '\x27' :: s, fun same s => ?_⟩
      rw [← operand_quoted (P := P)]
      apply operand_congr
      rw [hstrip same s, strip_quoted]
      simp [quoted]
    · refine ⟨d :: pre, fun s => '=' :: ' ' :: quoted s, fun same s => ?_⟩
      have htext := operand_text (P := P) hnumber (by rw [hstrip same s]; exact hquoted _ same s)
        (by rw [hstrip same s]; simpa using hd)
      rw [htext, hstrip same s]

/-! ## Evaluation -/

theorem strip_value {same : Bool} (h : v.dropWhile isSpace ≠ []) :
    stripChars (v ++ test same s) = v.dropWhile isSpace ++ test same s := by
  rw [strip_test, List.dropWhile_append, if_neg (by simpa using h)]
  simp [test, quoted]

/-- Where the sign of the condition is found in a value without signs. -/
theorem read_comparing {same : Bool} (hs : '\n' ∉ s) (hv : '\n' ∉ v) (hfree : SignFree v) :
    readComparison [] (stripChars (v ++ test same s)) =
      some (stripChars v, signOf same, quoted s) := by
  by_cases hblank : v.dropWhile isSpace = []
  · have hnil : stripChars v = [] := by
      rw [stripChars, hblank]
      rfl
    have hhere : signHere (signStart same :: '=' :: ' ' :: quoted s) =
        some (signOf same, quoted s) := by
      have hsame : signHere ([] ++ test same s) = some (signOf same, quoted s) :=
        signHere_blanks hs rfl
      unfold signHere at hsame ⊢
      rw [List.nil_append, test, List.dropWhile_cons_of_pos (by decide)] at hsame
      exact hsame
    have htest : stripChars (v ++ test same s) = signStart same :: '=' :: ' ' :: quoted s := by
      rw [strip_test, List.dropWhile_append, if_pos (by simpa using hblank)]
      cases same <;> rfl
    rw [htest, readComparison_cons, hhere, hnil]
  · rw [strip_value hblank, read_free hs [] (fun hin => hv ((List.dropWhile_sublist _).subset hin))
      fun ds hds => hfree ds (hds.trans (List.dropWhile_suffix _))]
    rfl

/-- A value without signs is compared as it is read. -/
theorem evaluateText_free {same : Bool} (hs : '\n' ∉ s) (hv : '\n' ∉ v) (hfree : SignFree v) :
    evaluateText P source (v ++ test same s) = .ok (same == (operand P v).eq (.text s)) := by
  unfold evaluateText
  rw [read_comparing hs hv hfree]
  simp only [operand_strip, operand_quoted]
  cases same <;> simp [signOf, Sign.compare]

theorem eq_text_iff {a : Operand} : a.eq (.text s) = true ↔ a = .text s := by
  cases a <;> simp [Operand.eq, Operand.number?]

/-- What a sign inside the value makes of the condition. -/
theorem evaluateText_sign (hnumber : ∀ text : String, '\x27' ∈ text.toList → P.number text = none)
    (hv : '\n' ∉ v) (hsign : ¬ SignFree v) :
    ∃ (left : Operand) (sign : Sign) (before : List Char) (after : List Char → List Char),
      ∀ same s source b, '\n' ∉ s → evaluateText P source (v ++ test same s) = .ok b →
        sign.compare left (.text (before ++ signStart same :: after s)) = some b := by
  have hblank : v.dropWhile isSpace ≠ [] := fun hnil =>
    hsign (signFree_of_blank (List.dropWhile_eq_nil_iff.mp hnil))
  have hsign' : ¬ SignFree (v.dropWhile isSpace) := by
    refine fun hfree => hsign ?_
    rw [← List.takeWhile_append_dropWhile (p := isSpace) (l := v)]
    exact signFree_blanks (fun d hd => List.mem_takeWhile_imp hd) hfree
  obtain ⟨pre, sign, rest, hread⟩ :=
    read_sign [] (fun hin => hv ((List.dropWhile_sublist _).subset hin)) hsign'
  obtain ⟨before, after, hright⟩ := operand_rest hnumber rest
  refine ⟨operand P pre, sign, before, after, fun same s source b hs h => ?_⟩
  unfold evaluateText at h
  rw [strip_value hblank, hread same s hs] at h
  simp only [List.nil_append, hright] at h
  split at h
  · rename_i found hfound
    cases h
    exact hfound
  · cases h

/-! ## Values that are safe -/

/-- One line with no comparison sign, which is read as the text it is: not as a quoted
    text, a boolean, nothing or a number, and with no white space around it. -/
structure Plain (P : Python) (value : String) : Prop where
  line : '\n' ∉ value.toList
  signs : SignFree value.toList
  itself : operand P value.toList = .text value.toList

/-- A plain value is safe with any literal. -/
theorem Plain.safe (h : Plain P value) (hliteral : Literal P literal) : Safe P value literal := by
  intro look source name hname hlook
  have heval : ∀ same, evaluate P look source (comparing same name literal) =
      .ok (same == decide (value = literal)) := by
    intro same
    have htext : (value.toList == literal.toList) = decide (value = literal) := by
      rw [Bool.eq_iff_iff, beq_iff_eq, decide_eq_true_eq, String.toList_inj]
    rw [evaluate_comparing hname hlook hliteral.plain,
      evaluateText_free hliteral.line h.line h.signs, h.itself, ← htext]
    rfl
  refine ⟨?_, ?_⟩
  · rw [heval]
    simp
  · rw [heval]
    by_cases heq : value = literal <;> simp [heq]

/-- The texts of the two conditions. -/
theorem Safe.texts (h : Safe P value literal) (hliteral : Literal P literal) (same : Bool) :
    evaluateText P "" (value.toList ++ test same literal.toList) =
      .ok (same == decide (value = literal)) := by
  have hname : IsName P "x" := ⟨'x', [], rfl, by decide, by simp⟩
  obtain ⟨heq, hne⟩ := h (fun _ => some (.str value)) "" "x" hname rfl
  rw [evaluate_comparing hname rfl hliteral.plain] at heq hne
  cases same with
  | true => simpa using heq
  | false =>
    rw [hne]
    by_cases hvalue : value = literal <;> simp [hvalue]

/-- The sign of the condition comes after the same text, and `!` comes before `=`. -/
theorem test_lt (before : List Char) (after : List Char → List Char) (s t : List Char) :
    before ++ signStart false :: after s < before ++ signStart true :: after t := by
  apply List.append_left_lt
  rw [List.cons_lt_cons_iff]
  exact Or.inl (by decide)

/-- With a sign inside the value one of two literals goes wrong: the value itself, or the
    empty text. -/
theorem signFree_of_safe (hnumber : ∀ text : String, '\x27' ∈ text.toList → P.number text = none)
    (hvalue : Literal P value) (h : ∀ literal, Literal P literal → Safe P value literal) :
    SignFree value.toList := by
  by_contra hsign
  have hempty : Literal P "" := ⟨by simp, rfl⟩
  have hne : value ≠ "" := by
    rintro rfl
    exact hsign (signFree_of_blank (by simp))
  obtain ⟨left, sign, before, after, hcompare⟩ := evaluateText_sign hnumber hvalue.line hsign
  have hsame : ∀ same, sign.compare left
      (.text (before ++ signStart same :: after value.toList)) = some same := by
    intro same
    have heval := (h value hvalue).texts hvalue same
    rw [decide_eq_true rfl] at heval
    have hfound := hcompare same _ "" _ hvalue.line heval
    rwa [beq_true] at hfound
  have hother : ∀ same, sign.compare left
      (.text (before ++ signStart same :: after [])) = some (!same) := by
    intro same
    have heval := (h "" hempty).texts hempty same
    rw [decide_eq_false hne] at heval
    have hfound := hcompare same _ "" _ hempty.line heval
    rwa [beq_false] at hfound
  -- a sign of order needs texts on both sides
  have htext : sign ≠ .eq → sign ≠ .ne → ∃ x, left = .text x := by
    intro heq hne'
    have hfound := hsame true
    cases left with
    | text x => exact ⟨x, rfl⟩
    | bool b => cases sign <;> simp_all [Sign.compare, Operand.number?]
    | none => cases sign <;> simp_all [Sign.compare, Operand.number?]
    | number x => cases sign <;> simp_all [Sign.compare, Operand.number?]
  have hlt : ∀ s t, before ++ signStart false :: after s < before ++ signStart true :: after t :=
    test_lt before after
  have hdiffer : ∀ s t, before ++ signStart false :: after s ≠ before ++ signStart true :: after t :=
    fun s t heq => List.lt_irrefl _ (heq ▸ hlt s t)
  cases sign with
  | eq =>
    have hfirst := eq_text_iff.mp (Option.some.inj (hsame true))
    have hsecond := eq_text_iff.mp (Option.some.inj (hother false))
    rw [hfirst] at hsecond
    exact hdiffer _ _ (Operand.text.inj hsecond).symm
  | ne =>
    have hfirst : left.eq (.text (before ++ signStart false :: after value.toList)) = true := by
      simpa [Sign.compare] using hsame false
    have hsecond : left.eq (.text (before ++ signStart true :: after [])) = true := by
      simpa [Sign.compare] using hother true
    have heq := eq_text_iff.mp hfirst
    rw [eq_text_iff.mp hsecond] at heq
    exact hdiffer _ _ (Operand.text.inj heq).symm
  | lt =>
    obtain ⟨x, rfl⟩ := htext (by simp) (by simp)
    have hnot : ¬ x < before ++ signStart true :: after [] := by
      simpa [Sign.compare] using hother true
    have hless : x < before ++ signStart false :: after [] := by
      simpa [Sign.compare] using hother false
    exact hnot (List.lt_trans hless (hlt _ _))
  | le =>
    obtain ⟨x, rfl⟩ := htext (by simp) (by simp)
    have hless : before ++ signStart true :: after [] < x := by
      simpa [Sign.compare] using hother true
    have hnot : ¬ before ++ signStart false :: after [] < x := by
      simpa [Sign.compare] using hother false
    exact hnot (List.lt_trans (hlt _ _) hless)
  | gt =>
    obtain ⟨x, rfl⟩ := htext (by simp) (by simp)
    have hless : before ++ signStart true :: after value.toList < x := by
      simpa [Sign.compare] using hsame true
    have hnot : ¬ before ++ signStart false :: after value.toList < x := by
      simpa [Sign.compare] using hsame false
    exact hnot (List.lt_trans (hlt _ _) hless)
  | ge =>
    obtain ⟨x, rfl⟩ := htext (by simp) (by simp)
    have hnot : ¬ x < before ++ signStart true :: after value.toList := by
      simpa [Sign.compare] using hsame true
    have hless : x < before ++ signStart false :: after value.toList := by
      simpa [Sign.compare] using hsame false
    exact hnot (List.lt_trans hless (hlt _ _))

/-- **Value-safe**: a plain value is compared as it is with every literal, and of the values
    that can be written as a literal no others are. -/
theorem value_safe_iff
    (hnumber : ∀ text : String, '\x27' ∈ text.toList → P.number text = none) :
    (Plain P value → ∀ literal, Literal P literal → Safe P value literal) ∧
      (Literal P value → (∀ literal, Literal P literal → Safe P value literal) → Plain P value) := by
  refine ⟨fun hplain literal hliteral => hplain.safe hliteral, fun hvalue h => ?_⟩
  have hfree := signFree_of_safe hnumber hvalue h
  refine ⟨hvalue.line, hfree, ?_⟩
  have heval := (h value hvalue).texts hvalue true
  rw [evaluateText_free hvalue.line hvalue.line hfree, decide_eq_true rfl] at heval
  exact eq_text_iff.mp (by simpa using heval)

theorem plain_number : ∀ text : String, '\x27' ∈ text.toList → Python.plain.number text = none := by
  intro text hin
  change (Python.whole? text.toList).map _ = none
  cases hwhole : Python.whole? text.toList with
  | none => rfl
  | some i =>
    rcases Python.whole?_chars hwhole _ hin with hdigit | hsign
    · exact absurd hdigit (by decide)
    · exact absurd hsign (by decide)

theorem value_safe_gui :
    Safe Python.plain "gui" "gui" ∧ Safe Python.plain "gui" "cli" := by
  have hfree : ∀ ds ∈ "gui".toList.tails, readSign ds = none := by decide
  have hplain : Plain Python.plain "gui" :=
    ⟨by decide, fun ds hds => hfree ds ((List.mem_tails _ _).mpr hds), by decide⟩
  have hsafe := (value_safe_iff plain_number).1 hplain
  exact ⟨hsafe "gui" ⟨by decide, by decide⟩, hsafe "cli" ⟨by decide, by decide⟩⟩

/-- `true` is not found to be `true`, and a value with a sign in it is found to be another. -/
theorem unsafe_values :
    Literal Python.plain "true" ∧ ¬ Safe Python.plain "true" "true" ∧
      Literal Python.plain "c" ∧ ¬ Safe Python.plain "a != b" "c" := by
  have hname : IsName Python.plain "x" := ⟨'x', [], rfl, by decide, by simp⟩
  refine ⟨⟨by decide, by decide⟩, fun h => ?_, ⟨by decide, by decide⟩, fun h => ?_⟩
  · have heval := (h (fun _ => some (.str "true")) "" "x" hname rfl).1
    revert heval
    decide
  · have heval := (h (fun _ => some (.str "a != b")) "" "x" hname rfl).1
    revert heval
    decide

end Skills

end Slas
