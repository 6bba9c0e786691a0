/-
  Slas.Triage.Fingerprint

  The fingerprint of a failure text (`slas_triage.fingerprint`): numbers, hex numbers and PCI
  addresses are masked before the text is hashed.  SHA-256 is a parameter, and so is what
  Unicode says of a character.

  No match crosses a space, so a text is masked word by word (`mask_blank`).
-/

import Slas.Diff.Snapshots
import Slas.Lib.Separators
import Slas.Lib.Text

namespace Slas

namespace Triage

/-- The classes `\d` and `\w`, and `str.lower`. -/
structure Unicode where
  isDigit : Char → Bool
  isWord : Char → Bool
  lower : List Char → List Char
  isDigit_ascii : ∀ c : Char, c.toNat < 128 → isDigit c = c.isDigit
  isWord_ascii : ∀ c : Char, c.toNat < 128 → isWord c = (c.isAlphanum || c = '_')
  isDigit_arrow : isDigit '→' = false
  lower_ascii : ∀ cs, (∀ c ∈ cs, c.toNat < 128) → lower cs = cs.map Char.toLower
  lower_arrow : lower ['→'] = ['→']
  /-- A space is neither a letter nor ignored between letters. -/
  lower_blank : ∀ cs ds, lower (cs ++ ' ' :: ds) = lower cs ++ ' ' :: lower ds

open Regex Re

variable (U : Unicode)

/-- `[0-9a-fA-F]` -/
def isHexAnyCase (c : Char) : Bool := c ∈ "0123456789abcdefABCDEF".toList

def isOctal (c : Char) : Bool := c ∈ "01234567".toList

/-- `\b[0-9a-fA-F]{4}:[0-9a-fA-F]{2}:[0-9a-fA-F]{2}(?:\.[0-7])?\b` -/
def addressRe : Re :=
  all [boundary U.isWord, cls isHexAnyCase, cls isHexAnyCase, cls isHexAnyCase, cls isHexAnyCase,
    char ':', cls isHexAnyCase, cls isHexAnyCase, char ':', cls isHexAnyCase, cls isHexAnyCase,
    opt (seq (char '.') (cls isOctal)), boundary U.isWord]

/-- `0x[0-9a-fA-F]+` -/
def hexRe : Re := all [char '0', char 'x', plus (cls isHexAnyCase)]

/-- `NOISE` -/
def noise : Re := alt (addressRe U) (alt hexRe (plus (cls U.isDigit)))

/-- `NOISE.sub("#", text)` -/
def mask (text : List Char) : List Char := Patterns.sub (noise U).pattern ['#'] text

def normalise (text : List Char) : List Char := U.lower (Text.strip (mask U text))

/-- `fingerprint`: the first sixteen digits of the hash. -/
def fingerprint (sha256 : List Char → List Char) (text : List Char) : List Char :=
  (sha256 (normalise U text)).take 16

/-! ## Word by word -/

variable {U}

theorem isDigit_of_ascii {c : Char} (h : (decide (c.toNat < 128) && !c.isDigit) = true) :
    U.isDigit c = false := by
  simp only [Bool.and_eq_true, decide_eq_true_eq, Bool.not_eq_true'] at h
  rw [U.isDigit_ascii c h.1, h.2]

theorem isWord_of_ascii {c : Char} (b : Bool)
    (h : (decide (c.toNat < 128) && ((c.isAlphanum || c = '_') == b)) = true) :
    U.isWord c = b := by
  simp only [Bool.and_eq_true, decide_eq_true_eq, beq_iff_eq] at h
  rw [U.isWord_ascii c h.1, h.2]

theorem apart_noise : (noise U).Apart ' ' := by
  have hword : U.isWord ' ' = false := isWord_of_ascii false (by decide)
  have hdigit : U.isDigit ' ' = false := isDigit_of_ascii (by decide)
  simp [noise, addressRe, hexRe, Re.all, Apart, plus, opt, Re.char, isHexAnyCase, isOctal, hword,
    hdigit]

theorem noise_nil (prev : Option Char) : (noise U).pattern prev [] = none := by
  simp [noise, addressRe, hexRe, Re.all, plus, opt, Re.char, Re.pattern, Re.ends, Re.isOf]

theorem mask_blank (cs ds : List Char) :
    mask U (cs ++ ' ' :: ds) = mask U cs ++ ' ' :: mask U ds :=
  Patterns.sub_append (pattern_append apart_noise) (pattern_after apart_noise) noise_nil cs ds

/-! ## Words without a colon -/

/-- An address has a colon. -/
theorem address_ends_eq_nil {prev : Option Char} {cs : List Char} (h : ':' ∉ cs) :
    (addressRe U).ends ⟨prev, cs⟩ = [] := by
  rw [List.eq_nil_iff_forall_not_mem]
  intro end_ hend
  simp only [addressRe, Re.all, List.foldr_cons, mem_ends_seq] at hend
  obtain ⟨p₀, h₀, p₁, h₁, p₂, h₂, p₃, h₃, p₄, h₄, p₅, h₅, -⟩ := hend
  obtain rfl := eq_of_mem_ends_boundary h₀
  obtain ⟨_, -, h₁⟩ := rest_of_mem_ends_cls h₁
  obtain ⟨_, -, h₂⟩ := rest_of_mem_ends_cls h₂
  obtain ⟨_, -, h₃⟩ := rest_of_mem_ends_cls h₃
  obtain ⟨_, -, h₄⟩ := rest_of_mem_ends_cls h₄
  obtain ⟨c, hc, h₅⟩ := rest_of_mem_ends_cls h₅
  obtain rfl : c = ':' := of_decide_eq_true hc
  refine h ?_
  rw [show cs = _ from h₁, h₂, h₃, h₄, h₅]
  simp

/-- Where a text has no colon, a match is a hex number or a run of digits. -/
theorem noise_ends {prev : Option Char} {cs : List Char} (h : ':' ∉ cs) :
    (noise U).ends ⟨prev, cs⟩ =
      hexRe.ends ⟨prev, cs⟩ ++ (plus (cls U.isDigit)).ends ⟨prev, cs⟩ := by
  rw [noise, Re.ends, Re.ends, address_ends_eq_nil h, List.nil_append]

theorem noise_pattern_other {prev : Option Char} {c : Char} {cs : List Char} (h : ':' ∉ c :: cs)
    (hc : U.isDigit c = false) : (noise U).pattern prev (c :: cs) = none := by
  have hzero : c ≠ '0' := by
    rintro rfl
    rw [U.isDigit_ascii '0' (by decide)] at hc
    cases hc
  simp [Re.pattern, noise_ends h, hexRe, Re.all, Re.char, plus, Re.ends, hzero, hc]

theorem hexRe_ends_digits {prev : Option Char} {ds cs : List Char} (hne : ds ≠ [])
    (hds : ∀ d ∈ ds, U.isDigit d = true) (hend : ∀ c ∈ cs.head?, c ≠ 'x') :
    hexRe.ends ⟨prev, ds ++ cs⟩ = [] := by
  rw [List.eq_nil_iff_forall_not_mem]
  intro end_ hmem
  simp only [hexRe, Re.all, List.foldr_cons, mem_ends_seq] at hmem
  obtain ⟨p₁, h₁, p₂, h₂, -⟩ := hmem
  obtain ⟨_, -, h₁⟩ := rest_of_mem_ends_cls h₁
  obtain ⟨x, hx, h₂⟩ := rest_of_mem_ends_cls h₂
  obtain rfl : x = 'x' := of_decide_eq_true hx
  rw [h₂] at h₁
  obtain ⟨d, ds, rfl⟩ := List.exists_cons_of_ne_nil hne
  have htail : ds ++ cs = 'x' :: p₂.rest := (List.cons.inj h₁).2
  cases ds with
  | nil =>
    rw [List.nil_append] at htail
    exact hend 'x' (by rw [htail]; rfl) rfl
  | cons d' ds =>
    obtain rfl : d' = 'x' := (List.cons.inj htail).1
    have hdigit := hds 'x' (by simp)
    rw [U.isDigit_ascii 'x' (by decide)] at hdigit
    cases hdigit

/-- A run of digits, at its beginning: no hex number begins there. -/
theorem noise_pattern_digits {prev : Option Char} {ds cs : List Char} (hne : ds ≠ [])
    (hds : ∀ d ∈ ds, U.isDigit d = true) (hcolon : ':' ∉ ds ++ cs)
    (hend : ∀ c ∈ cs.head?, U.isDigit c = false ∧ c ≠ 'x') :
    (noise U).pattern prev (ds ++ cs) = some (ds, cs) := by
  have hhex : hexRe.ends ⟨prev, ds ++ cs⟩ = [] :=
    hexRe_ends_digits hne hds fun c hc => (hend c hc).2
  obtain ⟨d, ds, rfl⟩ := List.exists_cons_of_ne_nil hne
  have hfirst : (cls U.isDigit).ends ⟨prev, d :: (ds ++ cs)⟩ = [⟨some d, ds ++ cs⟩] := by
    simp [Re.ends, hds d (by simp)]
  have hdrop : (ds ++ cs).dropWhile U.isDigit = cs := by
    rw [List.dropWhile_append_of_pos fun x hx => hds x (List.mem_cons_of_mem _ hx)]
    cases cs with
    | nil => rfl
    | cons c cs => rw [List.dropWhile_cons, if_neg (by simp [(hend c rfl).1])]
  have hrun := head?_repeated_cls (p := U.isDigit) (ds ++ cs).length (some d) (ds ++ cs)
    (Nat.le_refl _)
  rw [hdrop] at hrun
  obtain ⟨end_, hhead, hrest⟩ := Option.map_eq_some_iff.mp hrun
  rw [List.cons_append] at hhex ⊢
  rw [Re.pattern, noise_ends (by simpa using hcolon), hhex, List.nil_append, plus, Re.ends, hfirst,
    List.flatMap_singleton, Re.ends, hhead, Option.map_some, hrest]
  have hlength : (d :: (ds ++ cs)).length - cs.length = (d :: ds).length := by
    simp only [List.length_cons, List.length_append]
    omega
  rw [hlength, ← List.cons_append, List.take_left]

/-! ## The mask of a word -/

@[simp] theorem mask_nil : mask U [] = [] := rfl

/-- Without a colon the mask does not depend on what comes before. -/
theorem subFrom_prev {prev : Option Char} {cs : List Char} (h : ':' ∉ cs) :
    Patterns.subFrom (noise U).pattern ['#'] 0 prev cs = mask U cs := by
  cases cs with
  | nil => rfl
  | cons c cs =>
    have hpattern : (noise U).pattern prev (c :: cs) = (noise U).pattern none (c :: cs) := by
      rw [Re.pattern, Re.pattern, noise_ends h, noise_ends h]
      rfl
    rw [mask, Patterns.sub, Patterns.subFrom, Patterns.subFrom, hpattern]

/-- Characters that are no digits stay. -/
theorem mask_plain {w cs : List Char} (hw : ∀ c ∈ w, U.isDigit c = false) (h : ':' ∉ w ++ cs) :
    mask U (w ++ cs) = w ++ mask U cs := by
  induction w with
  | nil => rfl
  | cons c w ih =>
    have hrest : ':' ∉ w ++ cs := fun hmem => h (List.mem_cons_of_mem _ hmem)
    have hnone : (noise U).pattern none (c :: (w ++ cs)) = none :=
      noise_pattern_other h (hw c (by simp))
    rw [mask, Patterns.sub, List.cons_append, Patterns.subFrom, hnone]
    simp only [List.cons_append]
    rw [subFrom_prev hrest, ih (fun x hx => hw x (List.mem_cons_of_mem _ hx)) hrest]

theorem subFrom_skip (m : Patterns.Pattern) (new ds cs : List Char) (prev : Option Char) :
    ∃ prev', Patterns.subFrom m new ds.length prev (ds ++ cs) =
      Patterns.subFrom m new 0 prev' cs := by
  induction ds generalizing prev with
  | nil => exact ⟨prev, rfl⟩
  | cons d ds ih => exact ih _

/-- A run of digits becomes one mark. -/
theorem mask_digits {ds cs : List Char} (hne : ds ≠ []) (hds : ∀ d ∈ ds, U.isDigit d = true)
    (h : ':' ∉ ds ++ cs) (hend : ∀ c ∈ cs.head?, U.isDigit c = false ∧ c ≠ 'x') :
    mask U (ds ++ cs) = '#' :: mask U cs := by
  have hmatch : (noise U).pattern none (ds ++ cs) = some (ds, cs) :=
    noise_pattern_digits hne hds h hend
  obtain ⟨d, ds, rfl⟩ := List.exists_cons_of_ne_nil hne
  have hrest : ':' ∉ cs := fun hmem => h (List.mem_append_right _ hmem)
  rw [List.cons_append] at hmatch ⊢
  rw [mask, Patterns.sub, Patterns.subFrom, hmatch]
  simp only [List.length_append, Nat.add_sub_cancel_right, List.cons_append, List.nil_append]
  obtain ⟨prev, hskip⟩ := subFrom_skip (noise U).pattern ['#'] ds cs (some d)
  rw [hskip, subFrom_prev hrest]

theorem mask_word {w : List Char} (hw : ∀ c ∈ w, U.isDigit c = false) (h : ':' ∉ w) :
    mask U w = w := by
  have hmask : mask U (w ++ []) = w ++ mask U [] := mask_plain hw (by simpa using h)
  simpa using hmask

/-! ## The mask of an address -/

theorem isHexAnyCase_of_isHex {c : Char} (h : Diff.isHex c = true) :
    isHexAnyCase c = true ∧ U.isWord c = true := by
  have hall : ("0123456789abcdef".toList.all fun c => isHexAnyCase c &&
      (decide (c.toNat < 128) && ((c.isAlphanum || c = '_') == true))) = true := by decide
  have hc := List.all_eq_true.mp hall c (of_decide_eq_true h)
  rw [Bool.and_eq_true] at hc
  exact ⟨hc.1, isWord_of_ascii true hc.2⟩

theorem isWord_of_octal {c : Char} (h : c ∈ "01234567".toList) :
    isOctal c = true ∧ U.isWord c = true := by
  have hall : ("01234567".toList.all fun c =>
      decide (c.toNat < 128) && ((c.isAlphanum || c = '_') == true)) = true := by decide
  exact ⟨decide_eq_true h, isWord_of_ascii true (List.all_eq_true.mp hall c h)⟩

/-- An address in brackets is a match, up to its bracket. -/
theorem noise_pattern_address {a b c d e f g h k : Char} {cs : List Char}
    (hhex : ∀ x ∈ [a, b, c, d, e, f, g, h], Diff.isHex x = true) (hk : k ∈ "01234567".toList) :
    (noise U).pattern (some '(') (a :: b :: c :: d :: ':' :: e :: f :: ':' :: g :: h :: '.' :: k ::
      ')' :: cs) = some ([a, b, c, d, ':', e, f, ':', g, h, '.', k], ')' :: cs) := by
  have hopen : U.isWord '(' = false := isWord_of_ascii false (by decide)
  have hclose : U.isWord ')' = false := isWord_of_ascii false (by decide)
  have hx : ∀ x ∈ [a, b, c, d, e, f, g, h], isHexAnyCase x = true := fun x hmem =>
    (isHexAnyCase_of_isHex (U := U) (hhex x hmem)).1
  have ha : U.isWord a = true := (isHexAnyCase_of_isHex (hhex a (by simp))).2
  obtain ⟨hoctal, hkword⟩ := isWord_of_octal (U := U) hk
  simp only [List.forall_mem_cons] at hx
  obtain ⟨h₁, h₂, h₃, h₄, h₅, h₆, h₇, h₈, -⟩ := hx
  simp [Re.pattern, noise, addressRe, Re.all, Re.ends, Re.char, opt, Re.isOf, hopen, hclose, ha,
    hkword, hoctal, h₁, h₂, h₃, h₄, h₅, h₆, h₇, h₈]

theorem noise_pattern_mark {prev : Option Char} {c : Char} {cs : List Char}
    (hhex : isHexAnyCase c = false) (hdigit : U.isDigit c = false) :
    (noise U).pattern prev (c :: cs) = none := by
  have hzero : c ≠ '0' := by
    rintro rfl
    exact absurd hhex (by decide)
  have haddress : (addressRe U).ends ⟨prev, c :: cs⟩ = [] := by
    rw [List.eq_nil_iff_forall_not_mem]
    intro end_ hend
    simp only [addressRe, Re.all, List.foldr_cons, mem_ends_seq] at hend
    obtain ⟨p₀, h₀, p₁, h₁, -⟩ := hend
    obtain rfl := eq_of_mem_ends_boundary h₀
    obtain ⟨x, hx, h₁⟩ := rest_of_mem_ends_cls h₁
    obtain ⟨rfl, -⟩ := List.cons.inj h₁
    exact absurd hx (by simp [hhex])
  simp [Re.pattern, noise, Re.ends, haddress, hexRe, Re.all, Re.char, plus, hzero, hdigit]

/-- Whatever the address, all of it is masked. -/
theorem mask_address {bdf : List Char} (h : Diff.isBdf bdf = true) :
    mask U ('(' :: bdf ++ [')', ':']) = ['(', '#', ')', ':'] := by
  have hmark : ∀ c ∈ ['(', ')', ':'], isHexAnyCase c = false ∧ U.isDigit c = false := by
    intro c hc
    have hall : (['(', ')', ':'].all fun c => !isHexAnyCase c &&
        (decide (c.toNat < 128) && !c.isDigit)) = true := by decide
    have hc := List.all_eq_true.mp hall c hc
    rw [Bool.and_eq_true, Bool.not_eq_true'] at hc
    exact ⟨hc.1, isDigit_of_ascii hc.2⟩
  have hnone : ∀ prev c cs, c ∈ ['(', ')', ':'] → (noise U).pattern prev (c :: cs) = none :=
    fun prev c cs hc => noise_pattern_mark (hmark c hc).1 (hmark c hc).2
  unfold Diff.isBdf at h
  split at h
  next a b c d e f g h' k =>
    simp only [Bool.and_eq_true, List.all_eq_true, decide_eq_true_eq] at h
    have hmatch : (noise U).pattern (some '(') (a :: b :: c :: d :: ':' :: e :: f :: ':' :: g ::
        h' :: '.' :: k :: ')' :: [':']) = _ := noise_pattern_address h.1 h.2
    simp only [List.cons_append, List.nil_append] at hmatch ⊢
    rw [mask, Patterns.sub, Patterns.subFrom, hnone _ _ _ (by simp)]
    simp only []
    rw [Patterns.subFrom, hmatch]
    simp [Patterns.subFrom, hnone]
  next => cases h

end Triage

end Slas
