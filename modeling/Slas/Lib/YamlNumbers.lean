/-
  Slas.Lib.YamlNumbers

  Numbers as Python writes them, read as plain scalars of YAML 1.1: whole numbers, and the
  general format, of which `1e+06` is a text for want of a point.

  Theorems:
    plain_int — a whole number comes back, if it has not too many digits;
    plain_general — the general format comes back as the decimal that it writes.
-/

import Slas.Lib.General
import Slas.Lib.YamlScalars

namespace Yaml

open General (IsWhole IsPower)

variable {cs ws fs ds : List Char} {c sign : Char}

/-! ## Whole numbers -/

theorem isDigit_spec (h : c.isDigit = true) :
    isDigitOr c = true ∧ isPlainChar c = true ∧ c.isAlphanum = true ∧ c.isAlpha = false ∧
      c ≠ '_' ∧ c ≠ '.' ∧ c ≠ '-' ∧ c ≠ '+' ∧ c ≠ 'e' := by
  have hall : ∀ n < 58, 48 ≤ n → isDigitOr (Char.ofNat n) = true ∧
      isPlainChar (Char.ofNat n) = true ∧ (Char.ofNat n).isAlphanum = true ∧
      (Char.ofNat n).isAlpha = false ∧ Char.ofNat n ≠ '_' ∧ Char.ofNat n ≠ '.' ∧
      Char.ofNat n ≠ '-' ∧ Char.ofNat n ≠ '+' ∧ Char.ofNat n ≠ 'e' := by decide +kernel
  simp only [Char.isDigit, ge_iff_le, Bool.and_eq_true, decide_eq_true_eq] at h
  have hlow : 48 ≤ c.toNat := UInt32.le_iff_toNat_le.mp h.1
  have hhigh : c.toNat ≤ 57 := UInt32.le_iff_toNat_le.mp h.2
  have hchar := hall c.toNat (by omega) hlow
  rwa [Char.ofNat_toNat] at hchar

/-- No word of the truth values begins with a digit or a sign. -/
theorem find_bools (h : ∀ d ∈ cs.head?, d.isAlpha = false) :
    BOOLS.find? (fun word => word.1.toList = cs) = none := by
  have hwords : (BOOLS.all fun word => word.1.toList.head?.any (·.isAlpha)) = true := by decide
  rw [List.find?_eq_none]
  intro word hword heq
  have hfirst := List.all_eq_true.mp hwords word hword
  rw [of_decide_eq_true heq] at hfirst
  obtain ⟨d, hd, halpha⟩ := (Option.any_eq_true _ _).mp hfirst
  rw [h d hd] at halpha
  cases halpha

theorem find_nulls (h : c.isDigit = true) (cs : List Char) :
    NULLS.any (fun word => word.toList = c :: cs) = false := by
  have hwords : (NULLS.all fun word => word.toList.head?.any (!·.isDigit)) = true := by decide
  rw [List.any_eq_false]
  intro word hword heq
  have hfirst := List.all_eq_true.mp hwords word hword
  rw [of_decide_eq_true heq, List.head?_cons, Option.any_some, h] at hfirst
  cases hfirst

theorem dateOf_of_mem (h : 'e' ∈ cs) : dateOf cs = none := by
  unfold dateOf
  split
  · next a b c d e f g k =>
    refine if_neg fun hall => ?_
    have he : 'e' ∈ [a, b, c, d, e, f, g, k] := by simpa using h
    exact absurd (List.all_eq_true.mp hall 'e' he) (by decide)
  · rfl

theorem unsignedFloat_digits (h : ∀ c ∈ ds, c.isDigit = true) : unsignedFloat ds = none := by
  have hdrop : ds.dropWhile isDigitOr = [] :=
    List.dropWhile_eq_nil_iff.mpr fun d hd => (isDigit_spec (h d hd)).1
  unfold unsignedFloat
  rw [hdrop]
  cases ds.takeWhile isDigitOr <;> rfl

theorem withoutBars_digits (h : ∀ c ∈ ds, c.isDigit = true) : withoutBars ds = ds :=
  List.filter_eq_self.mpr fun d hd => by simpa using (isDigit_spec (h d hd)).2.2.2.2.1

theorem unsignedInt_of_ne (h : c ≠ '0') (ds : List Char) :
    unsignedInt (c :: ds) = if c.isDigit ∧ ds.all isDigitOr then some (10, c :: ds) else none := by
  conv_lhs => unfold unsignedInt
  split
  · next heq => exact absurd (List.cons.inj heq).1 h
  · next heq => exact absurd (List.cons.inj heq).1 h
  · next heq => exact absurd (List.cons.inj heq).1 h
  · next heq =>
    obtain ⟨rfl, rfl⟩ := List.cons.inj heq
    rfl
  · next heq => cases heq

theorem unsignedInt_whole (h : IsWhole cs) : unsignedInt cs = some (10, cs) := by
  obtain ⟨c, ds, rfl⟩ := List.exists_cons_of_ne_nil h.ne
  by_cases hzero : c = '0'
  · rw [h.lead (by rw [hzero]; rfl)]
    rfl
  · rw [unsignedInt_of_ne hzero]
    exact if_pos ⟨h.digits c List.mem_cons_self, List.all_eq_true.mpr fun d hd =>
      (isDigit_spec (h.digits d (List.mem_cons_of_mem _ hd))).1⟩

theorem takeSign_digit (h : c.isDigit = true) (cs : List Char) :
    takeSign (c :: cs) = (false, c :: cs) := by
  obtain ⟨-, -, -, -, -, -, hminus, hplus, -⟩ := isDigit_spec h
  unfold takeSign
  split
  · next heq => exact absurd (List.cons.inj heq).1 hminus
  · next heq => exact absurd (List.cons.inj heq).1 hplus
  · rfl

/-- A whole number is read as it is, with a minus or without. -/
theorem resolve_whole (h : IsWhole cs) (hlength : cs.length ≤ MAX_STR_DIGITS) :
    resolve cs = .ok (.int (Nat.ofDigitChars 10 cs 0)) ∧
      resolve ('-' :: cs) = .ok (.int (-(Nat.ofDigitChars 10 cs 0 : Int))) := by
  have hconstruct : ∀ neg, constructInt neg 10 cs =
      .ok (.int (if neg then -(Nat.ofDigitChars 10 cs 0 : Int) else Nat.ofDigitChars 10 cs 0)) := by
    intro neg
    unfold constructInt
    rw [withoutBars_digits h.digits]
    exact if_neg (by simp [h.ne, hlength])
  obtain ⟨c, ds, rfl⟩ := List.exists_cons_of_ne_nil h.ne
  have hc := h.digits c List.mem_cons_self
  constructor
  · unfold resolve
    rw [find_bools (by rintro d ⟨⟩; exact (isDigit_spec hc).2.2.2.1), takeSign_digit hc]
    dsimp only
    rw [unsignedFloat_digits h.digits, unsignedInt_whole h]
    exact hconstruct false
  · unfold resolve
    rw [find_bools (by rintro d ⟨⟩; decide), takeSign]
    dsimp only
    rw [unsignedFloat_digits h.digits, unsignedInt_whole h]
    exact hconstruct true

theorem isPlain_of_digit (hc : c.isDigit = true) (hcs : ∀ d ∈ cs, isPlainChar d = true) :
    isPlain (c :: cs) = true := by
  have hspec := isDigit_spec hc
  have hall : cs.all isPlainChar = true := List.all_eq_true.mpr hcs
  unfold isPlain
  split
  · next heq => exact absurd (List.cons.inj heq).1 hspec.2.2.2.2.2.2.1
  · next heq =>
    obtain ⟨rfl, rfl⟩ := List.cons.inj heq
    simp [hspec, hall]
  · next heq => cases heq

theorem isPlain_whole (h : IsWhole cs) : isPlain cs = true ∧ isPlain ('-' :: cs) = true := by
  obtain ⟨c, ds, rfl⟩ := List.exists_cons_of_ne_nil h.ne
  have hc := h.digits c List.mem_cons_self
  have hds : ∀ d ∈ ds, isPlainChar d = true := fun d hd =>
    (isDigit_spec (h.digits d (List.mem_cons_of_mem _ hd))).2.1
  exact ⟨isPlain_of_digit hc hds, by simp [isPlain, hc, List.all_eq_true.mpr hds]⟩

theorem plain_whole (h : IsWhole cs) (hlength : cs.length ≤ MAX_STR_DIGITS) :
    plain cs = .ok (.int (Nat.ofDigitChars 10 cs 0)) ∧
      plain ('-' :: cs) = .ok (.int (-(Nat.ofDigitChars 10 cs 0 : Int))) := by
  unfold plain
  rw [if_pos (isPlain_whole h).1, if_pos (isPlain_whole h).2]
  exact resolve_whole h hlength

/-- What Python writes of a whole number is read as the number. -/
theorem plain_int (n : Int) (hlength : (Nat.toDigits 10 n.natAbs).length ≤ MAX_STR_DIGITS) :
    plain (toString n).toList = .ok (.int n) := by
  have hplain := plain_whole (General.isWhole_toDigits n.natAbs) hlength
  rw [Nat.ofDigitChars_ten_toDigits] at hplain
  cases n with
  | ofNat n =>
    rw [show (toString (Int.ofNat n)).toList = Nat.toDigits 10 n from Nat.toList_repr]
    exact hplain.1
  | negSucc n =>
    have htext : (toString (Int.negSucc n)).toList = '-' :: Nat.toDigits 10 (n + 1) := by
      show ("-" ++ (n + 1).repr).toList = _
      rw [String.toList_append, Nat.toList_repr]
      rfl
    rw [htext]
    exact hplain.2

/-! ## The general format -/

/-- The digits after a point, if there is one, and what follows. -/
def afterPoint : List Char → List Char × List Char
  | '.' :: cs => (cs.takeWhile Char.isDigit, cs.dropWhile Char.isDigit)
  | cs => ([], cs)

/-- An exponent, whose sign may be missing. -/
def looseExponent : List Char → Option Int
  | e :: d :: ds => if d.isDigit then exponent (e :: '+' :: d :: ds) else exponent (e :: d :: ds)
  | cs => exponent cs

/-- The decimal of a text, as `float` reads one that has no underscores and no words. -/
def floatText (cs : List Char) : Option Rat :=
  let (neg, body) := takeSign cs
  let whole := body.takeWhile Char.isDigit
  let (fraction, power) := afterPoint (body.dropWhile Char.isDigit)
  if whole = [] ∧ fraction = [] then none
  else (looseExponent power).map fun e =>
    if neg then -decimal whole fraction e else decimal whole fraction e

theorem decimal_eq (whole fraction : List Char) (e : Int) :
    decimal whole fraction e =
      Nat.ofDigitChars 10 (whole ++ fraction) 0 * (10 : Rat) ^ (e - fraction.length) := by
  unfold decimal
  dsimp only
  split_ifs with h
  · rw [Nat.cast_pow, Nat.cast_ofNat, ← zpow_natCast, Int.toNat_of_nonneg h]
  · rw [Nat.cast_pow, Nat.cast_ofNat, ← zpow_natCast, Int.toNat_of_nonneg (by omega), zpow_neg,
      div_inv_eq_mul]

theorem exponent_of_isPower {power : List Char} {e : Int} (h : IsPower power e) :
    exponent power = some e := by
  cases h with
  | none => rfl
  | of e ds ne digits value =>
    have hall : ds.all Char.isDigit = true := List.all_eq_true.mpr digits
    by_cases hneg : e < 0
    · rw [if_pos hneg, exponent, if_pos (by simp [ne, hall]), value]
      exact congrArg some (by rw [if_pos rfl]; omega)
    · rw [if_neg hneg, exponent, if_pos (by simp [ne, hall]), value]
      exact congrArg some (by rw [if_neg (by decide)]; omega)

/-- Up to a character that is none, digits are taken and left. -/
theorem span_digits (p : Char → Bool) (cs : List Char) (hp : ∀ c, c.isDigit = true → p c = true)
    (h : ∀ c ∈ ds, c.isDigit = true) (hcs : ∀ c ∈ cs.head?, p c = false) :
    (ds ++ cs).takeWhile p = ds ∧ (ds ++ cs).dropWhile p = cs := by
  have hall : ∀ d ∈ ds, p d = true := fun d hd => hp d (h d hd)
  rw [List.takeWhile_append_of_pos hall, List.dropWhile_append_of_pos hall]
  cases cs with
  | nil => exact ⟨List.append_nil ds, rfl⟩
  | cons c cs =>
    have hc : ¬ p c = true := by simpa using hcs c rfl
    rw [List.takeWhile_cons_of_neg hc, List.dropWhile_cons_of_neg hc]
    exact ⟨List.append_nil ds, rfl⟩

theorem head_power {power : List Char} {e : Int} (h : IsPower power e) :
    ∀ c ∈ power.head?, c = 'e' := by
  cases h <;> simp

/-- A text with a point is a float. -/
theorem unsignedFloat_point {power : List Char} {e : Int} (hws : IsWhole ws)
    (hds : ∀ c ∈ ds, c.isDigit = true) (hpower : IsPower power e) :
    unsignedFloat (ws ++ '.' :: (ds ++ power)) = some (decimal ws ds e) := by
  obtain ⟨htake, hdrop⟩ := span_digits isDigitOr ('.' :: (ds ++ power))
    (fun c hc => (isDigit_spec hc).1) hws.digits (by rintro c ⟨⟩; rfl)
  obtain ⟨htake', hdrop'⟩ := span_digits isDigitOr power
    (fun c hc => (isDigit_spec hc).1) hds
    (by
      intro c hc
      rw [head_power hpower c hc]
      rfl)
  obtain ⟨c, ws, rfl⟩ := List.exists_cons_of_ne_nil hws.ne
  unfold unsignedFloat
  rw [htake, hdrop]
  show (if c.isDigit = true then _ else _) = _
  rw [if_pos (hws.digits c List.mem_cons_self), htake', hdrop', exponent_of_isPower hpower,
    withoutBars_digits hws.digits, withoutBars_digits hds]
  rfl

/-- A text with an exponent and without a point is none of the patterns. -/
theorem resolve_exponent {ds : List Char} (hws : IsWhole ws) :
    resolve (ws ++ 'e' :: sign :: ds) = .ok (.str (String.ofList (ws ++ 'e' :: sign :: ds))) := by
  obtain ⟨htake, hdrop⟩ := span_digits isDigitOr ('e' :: sign :: ds)
    (fun c hc => (isDigit_spec hc).1) hws.digits (by rintro c ⟨⟩; rfl)
  have hlead := hws.lead
  obtain ⟨c, ws, rfl⟩ := List.exists_cons_of_ne_nil hws.ne
  have hc := hws.digits c List.mem_cons_self
  have hfloat : unsignedFloat (c :: ws ++ 'e' :: sign :: ds) = none := by
    unfold unsignedFloat
    rw [htake, hdrop]
    rfl
  have hint : unsignedInt (c :: ws ++ 'e' :: sign :: ds) = none := by
    by_cases hzero : c = '0'
    · obtain ⟨rfl, rfl⟩ := List.cons.inj (hlead (by rw [hzero]; rfl))
      rfl
    · rw [List.cons_append, unsignedInt_of_ne hzero]
      exact if_neg fun h => absurd (List.all_eq_true.mp h.2 'e' (by simp)) (by decide)
  unfold resolve
  rw [find_bools (by rintro d ⟨⟩; exact (isDigit_spec hc).2.2.2.1), List.cons_append,
    takeSign_digit hc]
  dsimp only
  rw [← List.cons_append, hfloat, hint, dateOf_of_mem (by simp), List.cons_append, find_nulls hc]
  rfl

theorem looseExponent_of_isPower {power : List Char} {e : Int} (h : IsPower power e) :
    afterPoint power = ([], power) ∧ looseExponent power = some e := by
  have hread := exponent_of_isPower h
  cases h with
  | none => exact ⟨rfl, rfl⟩
  | of e ds ne digits value =>
    have hsign : (if e < 0 then '-' else '+').isDigit = false := by split_ifs <;> rfl
    refine ⟨rfl, ?_⟩
    rw [looseExponent, hsign]
    exact hread

theorem floatText_exponent {power : List Char} {e : Int} (hws : IsWhole ws)
    (hpower : IsPower power e) : floatText (ws ++ power) = some (decimal ws [] e) := by
  obtain ⟨htake, hdrop⟩ := span_digits Char.isDigit power (fun _ hc => hc)
    hws.digits
    (by
      intro c hc
      rw [head_power hpower c hc]
      rfl)
  obtain ⟨hpoint, hread⟩ := looseExponent_of_isPower hpower
  obtain ⟨c, ws, rfl⟩ := List.exists_cons_of_ne_nil hws.ne
  unfold floatText
  rw [List.cons_append, takeSign_digit (hws.digits c List.mem_cons_self), ← List.cons_append]
  dsimp only
  rw [htake, hdrop, hpoint, hread]
  rfl

theorem isPlainChar_power {power : List Char} {e : Int} (h : IsPower power e) :
    ∀ c ∈ power, isPlainChar c = true := by
  cases h with
  | none => simp
  | of e ds ne digits value =>
    have hsign : isPlainChar (if e < 0 then '-' else '+') = true := by split_ifs <;> decide
    exact List.forall_mem_cons.mpr ⟨by decide, List.forall_mem_cons.mpr ⟨hsign, fun c hc =>
      (isDigit_spec (digits c hc)).2.1⟩⟩

theorem isPlain_append (hws : IsWhole ws) (hcs : ∀ c ∈ cs, isPlainChar c = true) :
    isPlain (ws ++ cs) = true := by
  obtain ⟨c, ws, rfl⟩ := List.exists_cons_of_ne_nil hws.ne
  refine isPlain_of_digit (hws.digits c List.mem_cons_self) fun d hd => ?_
  rcases List.mem_append.mp hd with hwhole | hrest
  · exact (isDigit_spec (hws.digits d (List.mem_cons_of_mem _ hwhole))).2.1
  · exact hcs d hrest

/-- A text with a point is a float. -/
theorem resolve_point {power : List Char} {e : Int} (hws : IsWhole ws)
    (hds : ∀ c ∈ ds, c.isDigit = true) (hpower : IsPower power e) :
    resolve (ws ++ '.' :: (ds ++ power)) = .ok (.float (decimal ws ds e)) := by
  have hfloat := unsignedFloat_point hws hds hpower
  obtain ⟨c, ws, rfl⟩ := List.exists_cons_of_ne_nil hws.ne
  have hc := hws.digits c List.mem_cons_self
  unfold resolve
  rw [find_bools (by rintro d ⟨⟩; exact (isDigit_spec hc).2.2.2.1), List.cons_append,
    takeSign_digit hc, ← List.cons_append]
  dsimp only
  rw [hfloat]
  rfl

/-- The general format is read as a number, or as a text that is one. -/
theorem plain_general {q : Rat} (p : General.Parts cs q) :
    (∃ n : Int, plain cs = .ok (.int n) ∧ (n : Rat) = q) ∨ plain cs = .ok (.float q) ∨
      (plain cs = .ok (.str (String.ofList cs)) ∧ floatText cs = some q) := by
  obtain ⟨ws, ds, power, e, rfl, hws, hlength, hds, hpower, hvalue⟩ := p
  have hpowerPlain := isPlainChar_power hpower
  by_cases hnil : ds = []
  · subst hnil
    rw [if_pos rfl, List.append_nil]
    have hfloat := floatText_exponent hws hpower
    rw [decimal_eq, hvalue] at hfloat
    cases hpower with
    | none =>
      rw [List.append_nil]
      have hmax : ws.length ≤ MAX_STR_DIGITS := hlength.trans (by decide)
      exact Or.inl ⟨_, (plain_whole hws hmax).1, by simpa using hvalue⟩
    | of e ks ne digits value =>
      refine Or.inr (Or.inr ⟨?_, hfloat⟩)
      rw [plain, if_pos (isPlain_append hws hpowerPlain), resolve_exponent hws]
  · have hall : ∀ c ∈ '.' :: (ds ++ power), isPlainChar c = true := by
      refine List.forall_mem_cons.mpr ⟨by decide, fun c hc => ?_⟩
      rcases List.mem_append.mp hc with hdigit | hrest
      · exact (isDigit_spec (hds c hdigit)).2.1
      · exact hpowerPlain c hrest
    rw [if_neg hnil, List.append_assoc, List.cons_append]
    rw [plain, if_pos (isPlain_append hws hall), resolve_point hws hds hpower, decimal_eq, hvalue]
    exact Or.inr (Or.inl rfl)

end Yaml
