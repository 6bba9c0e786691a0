/-
  Slas.Sop.Lossless

  Protecting a text and restoring it at once (`protect` and `restore` of `slas_sop.protect`).

  Placeholders that a text has already are not confused with those that stand for what is
  protected, as their digits are protected too: `restore_protect`.  The digits stay visible where
  a term of the glossary covers them, and the text cannot be restored then: `visible_not_restored`.
-/

import Slas.Lib.RegexLanguage
import Slas.Sop.Protect

namespace Slas

namespace Sop

open Regex Placeholders

/-! ## What the protector recognises between brackets -/

/-- What the tables of Unicode say of the brackets and of digits. -/
structure Unicode.Known (U : Unicode) : Prop where
  opening : U.isWord '⟦' = false
  closing : U.isWord '⟧' = false
  word_of_digit : ∀ c, U.isDigit c = true → U.isWord c = true
  ascii_of_digit : ∀ c : Char, c.toNat < 128 → U.isDigit c = true → c.isDigit = true

variable {U : Unicode}

namespace Unicode.Known

variable (hU : U.Known)
include hU

theorem not_digit {c : Char} (hc : c.toNat < 128) (h : c.isDigit = false) :
    U.isDigit c = false := by
  rw [Bool.eq_false_iff]
  intro hdigit
  rw [hU.ascii_of_digit c hc hdigit] at h
  cases h

theorem not_digit_of_not_word {c : Char} (h : U.isWord c = false) : U.isDigit c = false := by
  rw [Bool.eq_false_iff]
  intro hdigit
  rw [hU.word_of_digit c hdigit] at h
  cases h

theorem not_digit_of_letter {c : Char} (h : isUpper c = true ∨ isLower c = true) :
    U.isDigit c = false := by
  have hrange : ('A'.toNat ≤ c.toNat ∧ c.toNat ≤ 'Z'.toNat) ∨
      ('a'.toNat ≤ c.toNat ∧ c.toNat ≤ 'z'.toNat) := by
    simpa [isUpper, isLower, Char.le_def, UInt32.le_iff_toNat_le] using h
  have hvalue : 65 ≤ c.toNat ∧ c.toNat ≤ 122 := by
    rcases hrange with h | h
    · exact ⟨h.1, Nat.le_trans h.2 (by decide)⟩
    · exact ⟨Nat.le_trans (by decide) h.1, h.2⟩
  refine hU.not_digit (by omega) ?_
  rw [Bool.eq_false_iff]
  intro hdigit
  have hle : c.toNat ≤ '9'.toNat := by
    simp [Char.isDigit, UInt32.le_iff_toNat_le] at hdigit
    exact hdigit.2
  exact absurd (Nat.le_trans hvalue.1 hle) (by decide)

end Unicode.Known

/-- What is recognised is at least one character, and does not begin with a bracket. -/
theorem begins_protected (hU : U.Known) {prev : Option Char} {cs group rest : List Char}
    (h : protectedPattern U prev cs = some (group, rest)) :
    cs = group ++ rest ∧ group ≠ [] ∧ group.head? ≠ some '⟦' := by
  obtain ⟨hmem, hcs⟩ := Re.pattern_spec h
  have hnullable : (Re.anyOf ((PROTECTED_PATTERNS U).map (·.2))).nullable = false := rfl
  have hfirst : (Re.anyOf ((PROTECTED_PATTERNS U).map (·.2))).first '⟦' = false := by
    simp [PROTECTED_PATTERNS, Re.anyOf, Re.all, Re.first, Re.nullable, Re.plus, Re.opt, Re.char,
      Re.literal, Re.times, isHex, isUpper, isLower, isAscii09, hU.opening,
      hU.not_digit_of_not_word hU.opening]
  refine ⟨hcs, ?_, ?_⟩
  · rintro rfl
    rw [Re.nullable_of_nil_mem hmem] at hnullable
    cases hnullable
  · intro hhead
    obtain ⟨tail, rfl⟩ := List.head?_eq_some_iff.mp hhead
    rw [Re.first_of_cons_mem hmem] at hfirst
    cases hfirst

theorem needs_char (hU : U.Known) {c : Char} (hc : c.toNat < 128) (h : c.isDigit = false) :
    (Re.char c).Needs fun c => !U.isDigit c := by
  refine .cls fun d hd => ?_
  obtain rfl : d = c := of_decide_eq_true hd
  rw [hU.not_digit hc h]
  rfl

theorem needs_letter (hU : U.Known) {p : Char → Bool}
    (hp : ∀ c, p c = true → isUpper c = true ∨ isLower c = true) :
    (Re.cls p).Needs fun c => !U.isDigit c := by
  refine .cls fun c hc => ?_
  rw [hU.not_digit_of_letter (hp c hc)]
  rfl

/-- Digits between brackets are no match of the other shapes: each of these needs something else,
    and only that of code goes beyond the brackets. -/
theorem others_digits (hU : U.Known) {digits : List Char} (hne : digits ≠ [])
    (hdigits : ∀ c ∈ digits, U.isDigit c = true) (rest : List Char) :
    ∀ r ∈ ((PROTECTED_PATTERNS U).map (·.2)).take 13,
      r.ends ⟨some '⟦', digits ++ '⟧' :: rest⟩ = [] := by
  have hclosing := hU.not_digit_of_not_word hU.closing
  have hmisses {r : Re} (h : r.Needs fun c => !U.isDigit c) (hstop : r.takes '⟧' = false) :
      r.ends ⟨some '⟦', digits ++ '⟧' :: rest⟩ = [] :=
    Re.ends_eq_nil_of_needs h (fun c hc => by rw [hdigits c hc]; rfl) hstop
  have hupper : (Re.cls isUpper).Needs fun c => !U.isDigit c := needs_letter hU fun _ => Or.inl
  have hlower : (Re.cls isLower).Needs fun c => !U.isDigit c := needs_letter hU fun _ => Or.inr
  simp only [PROTECTED_PATTERNS, List.map_cons, List.take_succ_cons, List.take_zero,
    List.forall_mem_cons]
  refine ⟨?code, ?ticket, ?bdf, ?tag, ?path, ?filename, ?version, ?hex, ?snake, ?acronym_digit,
    ?acronym, ?camel, ?lane, List.forall_mem_nil _⟩
  case code =>
    obtain ⟨d, digits, rfl⟩ := List.exists_cons_of_ne_nil hne
    refine Re.ends_eq_nil_of_first rfl ?_
    have hd : d ≠ '\x60' := by
      rintro rfl
      have h := hdigits _ List.mem_cons_self
      rw [hU.not_digit (by decide) rfl] at h
      cases h
    simp [Re.isOf, Re.all, Re.first, Re.nullable, Re.char, hd]
  case ticket =>
    refine hmisses (.all (i := 1) rfl (needs_char hU (c := 'T') (by decide) rfl).left) ?_
    simp [Re.takes, Re.all, Re.literal, Re.char, Re.plus, Re.times, isLower, hclosing]
  case bdf =>
    refine hmisses (.all (i := 2) rfl (needs_char hU (by decide) rfl)) ?_
    simp [Re.takes, Re.all, Re.char, Re.times, isHex, isAscii09]
  case tag =>
    refine hmisses (.all (i := 0) rfl (needs_char hU (by decide) rfl)) ?_
    simp [Re.takes, Re.all, Re.anyOf, Re.literal, Re.char]
  case path =>
    have hslash : (Re.char '/').Needs fun c => !U.isDigit c := needs_char hU (by decide) rfl
    refine hmisses (.all (i := 1) rfl (.alt hslash (.alt hslash.left.right (.alt hslash.left.right
      (.cls fun _ h =>
      absurd h Bool.false_ne_true))))) ?_
    simp [Re.takes, Re.all, Re.anyOf, Re.literal, Re.char, Re.plus, Re.opt, hU.closing]
  case filename =>
    refine hmisses (.all (i := 3) rfl (needs_char hU (by decide) rfl)) ?_
    simp [Re.takes, Re.all, Re.anyOf, Re.literal, Re.char, Re.plus, hU.closing]
  case version =>
    refine hmisses (.all (i := 3) rfl (needs_char hU (by decide) rfl)) ?_
    simp [Re.takes, Re.all, Re.char, Re.plus, Re.opt, hU.closing, hclosing]
  case hex =>
    refine hmisses (.all (i := 1) rfl (needs_char hU (c := 'x') (by decide) rfl).left.right) ?_
    simp [Re.takes, Re.all, Re.literal, Re.char, Re.plus, isHex, isAscii09]
  case snake =>
    refine hmisses (.all (i := 1) rfl hlower) ?_
    simp [Re.takes, Re.all, Re.char, Re.plus, isLower, isAscii09]
  case acronym_digit =>
    refine hmisses (.all (i := 1) rfl hupper) ?_
    simp [Re.takes, Re.all, isUpper, isLower, isAscii09, hclosing]
  case acronym =>
    refine hmisses (.all (i := 1) rfl hupper) ?_
    simp [Re.takes, Re.all, Re.plus, Re.opt, isUpper, isLower]
  case camel =>
    refine hmisses (.all (i := 1) rfl hupper) ?_
    simp [Re.takes, Re.all, Re.plus, isUpper, isLower, isAscii09]
  case lane =>
    refine hmisses (.all (i := 1) rfl (needs_char hU (by decide) rfl)) ?_
    simp [Re.takes, Re.all, Re.char, Re.plus, hclosing]

/-- Digits between brackets are a number. -/
theorem protected_digits (hU : U.Known) {digits : List Char} (hne : digits ≠ [])
    (hdigits : ∀ c ∈ digits, U.isDigit c = true) (rest : List Char) :
    protectedPattern U (some '⟦') (digits ++ '⟧' :: rest) = some (digits, '⟧' :: rest) := by
  have hclosing := hU.not_digit_of_not_word hU.closing
  have hplus : ∃ last, ((Re.plus (.cls U.isDigit)).ends ⟨some '⟦', digits ++ '⟧' :: rest⟩).head? =
      some ⟨last, '⟧' :: rest⟩ :=
    Re.head?_ends_plus_cls hne hdigits (by simpa [Re.isOf] using hclosing) (some '⟦')
  obtain ⟨last, hlast⟩ := hplus
  have hbehind : ((Re.notBehind fun c => U.isWord c || c = '.').ends
      ⟨some '⟦', digits ++ '⟧' :: rest⟩).head? = some ⟨some '⟦', digits ++ '⟧' :: rest⟩ := by
    simp [Re.ends, Re.isOf, hU.opening]
  suffices hends : ((Re.anyOf ((PROTECTED_PATTERNS U).map (·.2))).ends
      ⟨some '⟦', digits ++ '⟧' :: rest⟩).head? = some ⟨last, '⟧' :: rest⟩ from
    Re.pattern_eq_some hends
  refine Re.head?_ends_anyOf (i := 13) rfl (others_digits hU hne hdigits rest) ?_
  refine Re.head?_ends_seq hbehind (Re.head?_ends_seq (Re.head?_ends_opt ?_)
    (Re.head?_ends_seq hlast (Re.head?_ends_seq
      (Re.head?_ends_star (Re.ends_eq_nil_of_first rfl ?_)) (Re.head?_ends_seq (Re.head?_ends_opt
      (Re.ends_eq_nil_of_first rfl ?_)) (Re.head?_ends_seq ?_ rfl)))))
  · obtain ⟨d, digits, rfl⟩ := List.exists_cons_of_ne_nil hne
    have hd := hdigits d List.mem_cons_self
    have hsign {sign : Char} (hc : sign.toNat < 128) (h : sign.isDigit = false) : d ≠ sign := by
      rintro rfl
      rw [hU.not_digit hc h] at hd
      cases hd
    refine Re.ends_eq_nil_of_first rfl ?_
    have hminus : d ≠ '-' := hsign (by decide) rfl
    have hplus : d ≠ '+' := hsign (by decide) rfl
    simp [Re.isOf, Re.first, hminus, hplus]
  · simp [Re.isOf, Re.first, Re.nullable]
  · simp [Re.isOf, Re.first, Re.all, Re.anyOf, Re.opt, Re.char, Re.literal, Re.nullable]
    decide
  · have hnone : (Re.alt (.cls U.isWord) (.seq (.char '.') (.cls U.isDigit))).ends
        ⟨last, '⟧' :: rest⟩ = [] :=
      Re.ends_eq_nil_of_first rfl (by simp [Re.isOf, Re.first, Re.char, Re.nullable, hU.closing])
    rw [Re.ends, hnone]
    rfl

/-! ## Placeholders that read back as a text -/

/-- Pieces that are a text when the placeholders from the `n`-th on are put back. -/
inductive Marks : Nat → List (Piece (List Char)) → List Char → List (List Char) → Prop where
  | nil (n : Nat) : Marks n [] [] []
  | char {n : Nat} {pieces : List (Piece (List Char))} {cs : List Char}
      {groups : List (List Char)} (c : Char) (rest : Marks n pieces cs groups) :
      Marks n (.char c :: pieces) (c :: cs) groups
  | ref {n : Nat} {pieces : List (Piece (List Char))} {cs group : List Char}
      {groups : List (List Char)} (hne : group ≠ []) (rest : Marks (n + 1) pieces cs groups) :
      Marks n (.ref (placeholder (slotKey (n + 1))) (slotKey (n + 1)) :: pieces) (group ++ cs)
        (group :: groups)

namespace Marks

variable {n : Nat} {pieces : List (Piece (List Char))} {cs : List Char}
  {groups : List (List Char)}

theorem plain (before : List Char) (h : Marks n pieces cs groups) :
    Marks n (plain before ++ pieces) (before ++ cs) groups := by
  induction before with
  | nil => exact h
  | cons c before ih => exact .char c ih

theorem refs_eq (h : Marks n pieces cs groups) :
    refs pieces = (List.range' (n + 1) groups.length).map slotKey := by
  induction h with
  | nil n => rfl
  | char c rest ih => exact ih
  | @ref n pieces cs group groups hne rest ih =>
    rw [List.length_cons, List.range'_succ, List.map_cons, ← ih]
    rfl

theorem flatten_fillIn {g : List Char → Option (List Char)} (h : Marks n pieces cs groups)
    (hg : ∀ i group, groups[i]? = some group → g (slotKey (n + 1 + i)) = some group) :
    flatten (fillIn g pieces) = cs := by
  induction h with
  | nil n => rfl
  | char c rest ih => rw [fillIn, flatten_cons, ih hg]; rfl
  | @ref n pieces cs group groups hne rest ih =>
    have hlater := ih fun i later hi => by
      have h := hg (i + 1) later hi
      rwa [show n + 1 + (i + 1) = n + 1 + 1 + i by omega] at h
    have hfirst : g (slotKey (n + 1)) = some group := hg 0 group rfl
    rw [fillIn, hfirst]
    dsimp only
    rw [flatten_append, flatten_plain, hlater]

theorem length_le (h : Marks n pieces cs groups) : groups.length ≤ cs.length := by
  induction h with
  | nil n => exact Nat.le_refl 0
  | char c rest ih => exact Nat.le_succ_of_le ih
  | ref hne rest ih =>
    have hpos := List.length_pos_of_ne_nil hne
    rw [List.length_cons, List.length_append]
    omega

/-- In front of the first bracket stands what stands in the text. -/
theorem prefix_of_flatten (h : Marks n pieces cs groups) (before after : List Char)
    (hflat : flatten pieces = before ++ after) (hno : '⟦' ∉ before) : before <+: cs := by
  induction h generalizing before with
  | nil n =>
    obtain ⟨rfl, -⟩ := List.append_eq_nil_iff.mp hflat.symm
    exact List.nil_prefix
  | char c rest ih =>
    cases before with
    | nil => exact List.nil_prefix
    | cons d before =>
      obtain ⟨rfl, htail⟩ := List.cons.inj hflat
      exact (List.prefix_cons_inj c).mpr (ih before htail fun h => hno (List.mem_cons_of_mem c h))
  | ref hne rest _ =>
    cases before with
    | nil => exact List.nil_prefix
    | cons d before =>
      obtain ⟨rfl, -⟩ := List.cons.inj hflat
      exact absurd List.mem_cons_self hno

end Marks

/-! ## The text with its placeholders -/

variable {glossary : Glossary} {text : List Char}

/-- No term of the glossary matches a bracket. -/
def BracketsApart (U : Unicode) (glossary : Glossary) (text : List Char) : Prop :=
  ∀ span ∈ glossary.spans U text, '⟦' ∉ span.group ∧ '⟧' ∉ span.group

/-- No term of the glossary covers the digits between two brackets. -/
def NumbersHidden (U : Unicode) (glossary : Glossary) (text : List Char) : Prop :=
  ∀ before digits after, digits ≠ [] → (∀ c ∈ digits, U.isDigit c = true) →
    text = before ++ '⟦' :: (digits ++ '⟧' :: after) →
    isIn (glossary.spans U text) ⟨before.length + 1, digits⟩ = false

theorem isDigit_slotKey (n : Nat) : ∀ c ∈ slotKey n, U.isDigit c = true := by
  intro c hc
  have hkey : slotKey n = Nat.toDigits 10 n := Nat.toList_repr
  rw [hkey] at hc
  rw [Unicode.isDigit, U.decimal_ascii c (Nat.isDigit_of_mem_toDigits (by decide) (by decide) hc)]
  rfl

theorem slotKey_ne_nil (n : Nat) : slotKey n ≠ [] := by
  have hkey : slotKey n = Nat.toDigits 10 n := Nat.toList_repr
  rw [hkey]
  exact Nat.toDigits_ne_nil

theorem length_slotKey {n : Nat} (h : n < 10 ^ MAX_STR_DIGITS) :
    (slotKey n).length ≤ MAX_STR_DIGITS := by
  have hkey : slotKey n = Nat.toDigits 10 n := Nat.toList_repr
  rw [hkey]
  exact (Nat.length_toDigits_le_iff (by decide) (by decide)).mpr h

theorem scan_placeholder (hU : U.Known) (n : Nat) (rest : List Char) :
    scan (PLACEHOLDER U) (placeholder (slotKey n) ++ rest) =
      .ref (placeholder (slotKey n)) (slotKey n) :: scan (PLACEHOLDER U) rest :=
  scan_ref ((readPlaceholder_eq_some U).mpr ⟨rest, ⟨slotKey_ne_nil n, isDigit_slotKey n⟩, rfl, rfl,
    hU.not_digit_of_not_word hU.closing⟩)

/-- No placeholder begins with any other character. -/
theorem readPlaceholder_of_ne {c : Char} (h : c ≠ '⟦') (cs : List Char) :
    (PLACEHOLDER U).read (c :: cs) = none := by
  refine Option.eq_none_iff_forall_ne_some.mpr fun ⟨raw, digits⟩ hread => ?_
  obtain ⟨rest, -, hcs, rfl, -⟩ := (readPlaceholder_eq_some U).mp hread
  exact h (List.cons.inj hcs).1

/-- A term is where it begins. -/
theorem place_of_mem_spans {span : Match} (h : span ∈ glossary.spans U text) :
    ∃ before after, text = before ++ (span.group ++ after) ∧ span.start = before.length := by
  obtain ⟨term, -, hspan⟩ := List.mem_flatMap.mp h
  rcases List.mem_append.mp hspan with hfound | hplace
  · exact place_of_mem_finditer (fun prev cs group rest hm => (Re.pattern_spec hm).2) hfound
  · obtain ⟨start, hstart, rfl⟩ := List.mem_map.mp hplace
    obtain ⟨hrange, hprefix⟩ := List.mem_filter.mp hstart
    obtain ⟨after, hafter⟩ := List.isPrefixOf_iff_prefix.mp hprefix
    refine ⟨text.take start, after, ?_, ?_⟩
    · rw [hafter, List.take_append_drop]
    · rw [List.length_take]
      exact (min_eq_left (List.mem_range.mp hrange).le).symm

/-- What lies in a span is a part of it. -/
theorem infix_of_isIn {before group after : List Char} (htext : text = before ++ (group ++ after))
    (h : isIn (glossary.spans U text) ⟨before.length, group⟩ = true) :
    ∃ span ∈ glossary.spans U text, group <:+: span.group := by
  obtain ⟨span, hspan, hin⟩ := List.any_eq_true.mp h
  obtain ⟨hstart, hstop⟩ := Bool.and_eq_true_iff.mp hin
  have hstart : span.start ≤ before.length := of_decide_eq_true hstart
  have hstop : before.length + group.length ≤ span.start + span.group.length :=
    of_decide_eq_true hstop
  obtain ⟨before', after', htext', hplace⟩ := place_of_mem_spans hspan
  refine ⟨span, hspan, ?_⟩
  rw [htext] at htext'
  rw [hplace] at hstart hstop
  obtain ⟨gap, rfl, hgap⟩ : ∃ gap, before = before' ++ gap ∧
      span.group ++ after' = gap ++ (group ++ after) := by
    rcases List.append_eq_append_iff.mp htext' with ⟨more, rfl, hmore⟩ | ⟨more, rfl, hmore⟩
    · obtain rfl : more = [] := by
        rw [List.length_append] at hstart
        exact List.length_eq_zero_iff.mp (by omega)
      exact ⟨[], by simp, by simpa using hmore.symm⟩
    · exact ⟨more, rfl, hmore⟩
  have hprefix : gap ++ group <+: span.group := by
    refine List.prefix_of_prefix_length_le ⟨after, ?_⟩ ⟨after', hgap⟩ ?_
    · rw [List.append_assoc]
    · rw [List.length_append] at hstop ⊢
      omega
  exact (List.suffix_append gap group).isInfix.trans hprefix.isInfix

/-- The rest of a text, of which so many slots are filled. -/
def protectFrom (U : Unicode) (spans : List Match) (start : Nat) (prev : Option Char)
    (groups : List (List Char)) (cs : List Char) : List (List Char × List Char) × List Char :=
  subFrom (protectedPattern U) (replace spans) 0 start prev (numbered groups) cs

theorem replace_of_not_isIn {spans : List Match} {found : Match}
    (h : isIn spans found = false) (groups : List (List Char)) :
    replace spans (numbered groups) found =
      (numbered (groups ++ [found.group]), placeholder (slotKey (groups.length + 1))) := by
  simp [replace, h, numbered, List.mapIdx_append]

/-- What follows an opening bracket does not make it a placeholder: its digits are protected. -/
theorem read_opening (hU : U.Known) (hhidden : NumbersHidden U glossary text)
    {before cs out : List Char} {groups later : List (List Char)} {n : Nat}
    (htext : text = before ++ '⟦' :: cs) (hmarks : Marks n (scan (PLACEHOLDER U) out) cs later)
    (hout : out =
      (protectFrom U (glossary.spans U text) (before.length + 1) (some '⟦') groups cs).2) :
    (PLACEHOLDER U).read ('⟦' :: out) = none := by
  refine Option.eq_none_iff_forall_ne_some.mpr fun ⟨raw, digits⟩ hread => ?_
  have hread : readPlaceholder U ('⟦' :: out) = some (raw, digits) := hread
  obtain ⟨rest, ⟨hne, hdigits⟩, hcs, rfl, -⟩ := (readPlaceholder_eq_some U).mp hread
  obtain rfl : out = digits ++ '⟧' :: rest := by simpa [placeholder] using hcs
  have hopening : '⟦' ∉ digits ++ ['⟧'] := by
    intro hmem
    rcases List.mem_append.mp hmem with hmem | hmem
    · have h := hdigits _ hmem
      rw [hU.not_digit_of_not_word hU.opening] at h
      cases h
    · exact absurd (List.mem_singleton.mp hmem) (by decide)
  obtain ⟨after, rfl⟩ := hmarks.prefix_of_flatten (digits ++ ['⟧']) rest (by simp) hopening
  rw [List.append_assoc, List.singleton_append] at htext hout
  obtain ⟨prev, hstep⟩ := subFrom_of_match (f := replace (glossary.spans U text))
    (before.length + 1) (numbered groups) hne (protected_digits hU hne hdigits after)
  have hhere := hhidden before digits after hne hdigits htext
  rw [protectFrom, hstep, replace_of_not_isIn hhere] at hout
  -- a placeholder stands there, and not the digits
  obtain ⟨d, digits, rfl⟩ := List.exists_cons_of_ne_nil hne
  obtain ⟨rfl, -⟩ := List.cons.inj hout
  exact hopening List.mem_cons_self

/-- What is protected of the rest of a text. -/
theorem marks_protectFrom (hU : U.Known) (hapart : BracketsApart U glossary text)
    (hhidden : NumbersHidden U glossary text) (before cs : List Char) (prev : Option Char)
    (groups : List (List Char)) (htext : text = before ++ cs) :
    ∃ later, (protectFrom U (glossary.spans U text) before.length prev groups cs).1 =
        numbered (groups ++ later) ∧
      Marks groups.length (scan (PLACEHOLDER U)
        (protectFrom U (glossary.spans U text) before.length prev groups cs).2) cs later := by
  induction hn : cs.length using Nat.strongRecOn generalizing before cs prev groups with
  | ind n ih =>
    subst hn
    cases cs with
    | nil => exact ⟨[], by rw [List.append_nil]; rfl, .nil _⟩
    | cons c cs =>
      cases hfound : protectedPattern U prev (c :: cs) with
      | none =>
        have hstep := subFrom_of_none (f := replace (glossary.spans U text)) before.length
          (numbered groups) hfound
        obtain ⟨later, hslots, hmarks⟩ := ih cs.length (Nat.lt_succ_self _) (before ++ [c]) cs
          (some c) groups (by rw [htext, List.append_assoc]; rfl) rfl
        rw [List.length_append, List.length_singleton] at hslots hmarks
        have hread : (PLACEHOLDER U).read (c :: (protectFrom U (glossary.spans U text)
            (before.length + 1) (some c) groups cs).2) = none := by
          by_cases hc : c = '⟦'
          · subst hc
            exact read_opening hU hhidden htext hmarks rfl
          · exact readPlaceholder_of_ne hc _
        refine ⟨later, ?_, ?_⟩
        · rw [protectFrom, hstep]
          exact hslots
        · rw [protectFrom, hstep]
          exact (scan_char hread).symm ▸ .char c hmarks
      | some found =>
        obtain ⟨group, rest⟩ := found
        obtain ⟨hcs, hne, -⟩ := begins_protected hU hfound
        rw [hcs] at hfound htext ⊢
        obtain ⟨prev', hstep⟩ := subFrom_of_match (f := replace (glossary.spans U text))
          before.length (numbered groups) hne hfound
        have hless : rest.length < (c :: cs).length := by
          have hpos := List.length_pos_of_ne_nil hne
          rw [hcs, List.length_append]
          omega
        by_cases hin : isIn (glossary.spans U text) ⟨before.length, group⟩ = true
        · -- it is left as it stands
          have hreplace : replace (glossary.spans U text) (numbered groups)
              ⟨before.length, group⟩ = (numbered groups, group) := by rw [replace, if_pos hin]
          obtain ⟨span, hspan, hpart⟩ := infix_of_isIn htext hin
          have hno : '⟦' ∉ group := fun h => (hapart span hspan).1 (hpart.subset h)
          obtain ⟨later, hslots, hmarks⟩ := ih rest.length hless (before ++ group) rest prev' groups
            (by rw [htext, List.append_assoc]) rfl
          rw [List.length_append] at hslots hmarks
          refine ⟨later, ?_, ?_⟩
          · rw [protectFrom, hstep, hreplace]
            exact hslots
          · rw [protectFrom, hstep, hreplace]
            dsimp only
            rw [scan_plain_append fun d hd => readPlaceholder_of_ne (ne_of_mem_of_not_mem hd hno)]
            exact .plain group hmarks
        · have hreplace := replace_of_not_isIn (Bool.eq_false_iff.mpr hin) groups
          obtain ⟨later, hslots, hmarks⟩ := ih rest.length hless (before ++ group) rest prev'
            (groups ++ [group]) (by rw [htext, List.append_assoc]) rfl
          rw [List.length_append] at hslots hmarks
          refine ⟨group :: later, ?_, ?_⟩
          · rw [protectFrom, hstep, hreplace]
            rw [List.append_assoc] at hslots
            exact hslots
          · rw [protectFrom, hstep, hreplace]
            dsimp only
            rw [scan_placeholder hU]
            rw [List.length_append] at hmarks
            exact .ref hne hmarks

/-! ## The whole text -/

/-- **Protection is lossless**: unless a term of the glossary covers the digits between two
    brackets, what is protected is restored. -/
theorem restore_protect (hU : U.Known) (hlength : text.length < 10 ^ MAX_STR_DIGITS)
    (hapart : BracketsApart U glossary text) (hhidden : NumbersHidden U glossary text) :
    restore U (protect U glossary text).text (protect U glossary text) = .ok text := by
  obtain ⟨groups, hslots, hmarks⟩ := marks_protectFrom hU hapart hhidden [] text none [] rfl
  have hslots : (protect U glossary text).slots = numbered groups := hslots
  have hmarks : Marks 0 (scan (PLACEHOLDER U) (protect U glossary text).text) text groups := hmarks
  have hnumbers : numbersIn U (protect U glossary text).text = Dict.keys (numbered groups) := by
    rw [numbersIn, hmarks.refs_eq, keys_numbered, List.range'_eq_map_range, List.map_map]
    exact List.map_congr_left fun i _ => by rw [Function.comp_apply, Nat.zero_add, Nat.add_comm]
  have hshort : ¬ ∃ key ∈ numbersIn U (protect U glossary text).text ++
      Dict.keys (protect U glossary text).slots, MAX_STR_DIGITS < key.length := by
    rintro ⟨key, hkey, hlong⟩
    rw [hnumbers, hslots, List.mem_append, or_self, keys_numbered] at hkey
    obtain ⟨i, hi, rfl⟩ := List.mem_map.mp hkey
    have hle := hmarks.length_le
    have hi := List.mem_range.mp hi
    exact absurd (length_slotKey (n := i + 1) (by omega)) (Nat.not_le.mpr hlong)
  have hback : putBack U (protect U glossary text).slots (protect U glossary text).text = text := by
    refine hmarks.flatten_fillIn fun i group hi => ?_
    have hslot : (slotKey (i + 1), group) ∈ numbered groups :=
      List.mem_of_getElem? (i := i) (by rw [numbered, List.getElem?_mapIdx, hi]; rfl)
    rw [hslots, Nat.zero_add, Nat.add_comm]
    exact lookup_numbered hslot
  rw [restore_eq, if_neg hshort, if_pos (by rw [hnumbers, hslots]), hback]

private theorem decimal_of_isDigit (c : Char) (h : c.isDigit = true) :
    (if c.isDigit then some (c.toNat - '0'.toNat) else none) = some (c.toNat - '0'.toNat) :=
  if_pos h

/-- The letters and digits of ASCII. -/
private def asciiLetters : Unicode where
  isAlnum c := c.isAlphanum
  decimal c := if c.isDigit then some (c.toNat - '0'.toNat) else none
  lower := List.map Char.toLower
  sameCase c d := c.toLower = d.toLower
  decimal_ascii := decimal_of_isDigit

private theorem isDigit_ascii (c : Char) : asciiLetters.isDigit c = c.isDigit := by
  by_cases h : c.isDigit = true <;> simp [Unicode.isDigit, asciiLetters, h]

private theorem known_ascii : asciiLetters.Known where
  opening := rfl
  closing := rfl
  word_of_digit c h := by
    rw [isDigit_ascii] at h
    simp [Unicode.isWord, asciiLetters, Char.isAlphanum, h]
  ascii_of_digit c _ h := by rwa [isDigit_ascii] at h

private theorem powerCycle_ne : "power cycle".toList ≠ [] ∧ "電源循環".toList ≠ [] := by decide

private def powerCycles : Glossary where
  terms := [
    { en := "power cycle".toList
      zhHant := "電源循環".toList
      en_ne := powerCycle_ne.1
      zhHant_ne := powerCycle_ne.2 }]

private def procedure : List Char := "⟦7⟧: power cycle 3 times".toList

theorem restore_protect_procedure :
    restore asciiLetters (protect asciiLetters powerCycles procedure).text
      (protect asciiLetters powerCycles procedure) = .ok procedure := by
  have hspans : powerCycles.spans asciiLetters procedure = [⟨5, "power cycle".toList⟩] := by
    decide +kernel
  refine restore_protect known_ascii ?_ ?_ ?_
  · have hlength : procedure.length < 10 ^ 2 := by decide
    exact Nat.lt_of_lt_of_le hlength (Nat.pow_le_pow_right (by decide) (by decide))
  · intro span hspan
    rw [hspans] at hspan
    obtain rfl := List.mem_singleton.mp hspan
    decide
  · intro before digits after _ _ htext
    have honly : ∀ i < procedure.length, procedure[i]? = some '⟦' → i = 0 := by decide
    have hplace : before.length = 0 := by
      refine honly before.length ?_ ?_
      · rw [htext]
        simp
      · rw [htext]
        simp
    rw [hspans, hplace]
    rfl

private def sevens : Glossary where
  terms := [{ en := ['7'], zhHant := ['七'], en_ne := by decide, zhHant_ne := by decide }]

/-- Digits that a term covers stay between their brackets, as a placeholder that stands for
    nothing. -/
theorem visible_not_restored :
    BracketsApart asciiLetters sevens "⟦7⟧".toList ∧
      restore asciiLetters (protect asciiLetters sevens "⟦7⟧".toList).text
        (protect asciiLetters sevens "⟦7⟧".toList) =
          .error (.protection "invented ⟦7⟧".toList) := by
  have hspans : sevens.spans asciiLetters "⟦7⟧".toList = [⟨1, ['7']⟩] := by decide +kernel
  refine ⟨fun span hspan => ?_, by decide +kernel⟩
  rw [hspans] at hspan
  obtain rfl := List.mem_singleton.mp hspan
  decide

end Sop

end Slas
