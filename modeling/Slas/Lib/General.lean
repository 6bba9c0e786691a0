/-
  Slas.Lib.General

  The general format of a positive number (`%g`): six significant digits, rounded half to even,
  trailing zeros dropped; an exponent below -4 or from 6 on is written out.

  `format_eq`: how the text of a number is made up, and that it is worth the number rounded.
-/

import Mathlib.Algebra.Order.Field.Rat
import Mathlib.Data.List.TakeWhile
import Mathlib.Tactic.Positivity
import Mathlib.Tactic.Ring

namespace General

/-- The nearest integer, the even one of two. -/
def roundHalfEven (q : Rat) : Int :=
  let low := q.floor
  let rest := q - low
  if rest < 1 / 2 then low
  else if 1 / 2 < rest then low + 1
  else if low % 2 = 0 then low
  else low + 1

/-- The power of ten a positive number begins at. -/
def exponent (q : Rat) : Int :=
  if 1 ≤ q then ((Nat.toDigits 10 q.floor.toNat).length : Int) - 1
  else -((Nat.toDigits 10 (q⁻¹.ceil.toNat - 1)).length : Int)

def dropZeros (digits : List Char) : List Char := (digits.reverse.dropWhile (· == '0')).reverse

/-- A point and the digits after it, if any are left. -/
def fraction (digits : List Char) : List Char :=
  match dropZeros digits with
  | [] => []
  | ds => '.' :: ds

/-- The six digits of a positive number, and the power of ten of the first. -/
def significant (q : Rat) : List Char × Int :=
  let e := exponent q
  let scaled := if 5 ≤ e then q / (10 ^ (e - 5).toNat : Nat) else q * (10 ^ (5 - e).toNat : Nat)
  let m := (roundHalfEven scaled).toNat
  if m = 10 ^ 6 then (Nat.toDigits 10 (10 ^ 5), e + 1) else (Nat.toDigits 10 m, e)

/-- `f"{q:g}"` of a positive number. -/
def format (q : Rat) : String :=
  let (digits, e) := significant q
  if -4 ≤ e ∧ e < 6 then
    if 0 ≤ e then
      String.ofList (digits.take (e.toNat + 1) ++ fraction (digits.drop (e.toNat + 1)))
    else String.ofList ('0' :: fraction (List.replicate (-e - 1).toNat '0' ++ digits))
  else
    let power := Nat.toDigits 10 e.natAbs
    String.ofList (digits.take 1 ++ fraction (digits.drop 1) ++ 'e' ::
      (if e < 0 then '-' else '+') :: (if power.length < 2 then '0' :: power else power))

example : format (5 / 2) = "2.5" ∧ format 16 = "16" ∧ format (1 / 3) = "0.333333" ∧
    format 1234567 = "1.23457e+06" ∧ format (1 / 40000) = "2.5e-05" := by
  decide +kernel

/-- The number at six significant digits. -/
def rounded (q : Rat) : Rat :=
  roundHalfEven (q * 10 ^ (5 - exponent q)) * 10 ^ (exponent q - 5)

/-! ## Six digits -/

variable {q : Rat} {n : Nat} {cs : List Char}

/-- A number of `k + 1` digits. -/
theorem length_toDigits (hn : 0 < n) :
    ∃ k, (Nat.toDigits 10 n).length = k + 1 ∧ 10 ^ k ≤ n ∧ n < 10 ^ (k + 1) := by
  obtain ⟨k, hk⟩ := Nat.exists_eq_succ_of_ne_zero
    (Nat.pos_iff_ne_zero.mp (Nat.length_toDigits_pos (b := 10) (n := n)))
  refine ⟨k, hk, ?_, (Nat.length_toDigits_le_iff (by decide) (Nat.succ_pos k)).mp hk.le⟩
  rcases Nat.eq_zero_or_pos k with rfl | hpos
  · exact hn
  · by_contra hlt
    have hle := (Nat.length_toDigits_le_iff (by decide) hpos).mpr (not_le.mp hlt)
    omega

/-- The power of ten that a number begins at. -/
theorem exponent_spec (hq : 0 < q) :
    (10 : Rat) ^ exponent q ≤ q ∧ q < (10 : Rat) ^ (exponent q + 1) := by
  unfold exponent
  split_ifs with hone
  · have hfloor : 1 ≤ q.floor := Rat.le_floor_iff.mpr (by exact_mod_cast hone)
    obtain ⟨k, hk, hlow, hhigh⟩ := length_toDigits (n := q.floor.toNat) (by omega)
    have hcast : ((q.floor.toNat : Nat) : Rat) = (q.floor : Rat) := by
      exact_mod_cast Int.toNat_of_nonneg (by omega : 0 ≤ q.floor)
    rw [hk, show ((k + 1 : Nat) : Int) - 1 = (k : Int) by omega, zpow_natCast,
      show (k : Int) + 1 = ((k + 1 : Nat) : Int) by omega, zpow_natCast]
    constructor
    · calc (10 : Rat) ^ k ≤ (q.floor.toNat : Nat) := by exact_mod_cast hlow
        _ ≤ q := hcast ▸ Rat.floor_le q
    · calc q < ((q.floor + 1 : Int) : Rat) := Rat.lt_floor_add_one q
        _ = ((q.floor.toNat + 1 : Nat) : Rat) := by push_cast; rw [← hcast]
        _ ≤ (10 : Rat) ^ (k + 1) := by exact_mod_cast hhigh
  · have hinv : 1 < q⁻¹ := (one_lt_inv₀ hq).mpr (not_le.mp hone)
    have hceil : 1 < q⁻¹.ceil := Rat.lt_ceil_iff.mpr (by exact_mod_cast hinv)
    obtain ⟨k, hk, hlow, hhigh⟩ := length_toDigits (n := q⁻¹.ceil.toNat - 1) (by omega)
    have hcast : (((q⁻¹.ceil.toNat - 1 : Nat) : Int) : Rat) = ((q⁻¹.ceil - 1 : Int) : Rat) := by
      congr 1
      omega
    rw [hk, zpow_neg, show -((k + 1 : Nat) : Int) + 1 = -(k : Int) by omega, zpow_neg,
      zpow_natCast, zpow_natCast]
    constructor
    · refine inv_le_of_inv_le₀ hq ?_
      calc q⁻¹ ≤ (q⁻¹.ceil : Rat) := Rat.le_ceil
        _ = ((q⁻¹.ceil.toNat - 1 + 1 : Nat) : Rat) := by
          push_cast
          rw [← Int.cast_natCast, hcast]
          push_cast
          ring
        _ ≤ (10 : Rat) ^ (k + 1) := by exact_mod_cast hhigh
    · refine (lt_inv_comm₀ (by positivity) hq).mp ?_
      calc (10 : Rat) ^ k ≤ ((q⁻¹.ceil.toNat - 1 : Nat) : Rat) := by exact_mod_cast hlow
        _ = ((q⁻¹.ceil - 1 : Int) : Rat) := by rw [← Int.cast_natCast, hcast]
        _ < q⁻¹ := Rat.lt_ceil_iff.mp (by omega)

/-- A number between whole ones is rounded to one between them. -/
theorem roundHalfEven_bounds {a b : Int} (ha : (a : Rat) ≤ q) (hb : q < b) :
    a ≤ roundHalfEven q ∧ roundHalfEven q ≤ b := by
  have hlow : a ≤ q.floor := Rat.le_floor_iff.mpr ha
  have hhigh : q.floor < b := Rat.floor_lt_iff.mpr hb
  unfold roundHalfEven
  dsimp only
  split_ifs <;> omega

/-- Six digits are written, and they are worth the number rounded. -/
theorem significant_spec (hq : 0 < q) :
    ∃ m e, significant q = (Nat.toDigits 10 m, e) ∧ (Nat.toDigits 10 m).length = 6 ∧
      rounded q = m * 10 ^ (e - 5) := by
  obtain ⟨hlow, hhigh⟩ := exponent_spec hq
  have hten : (10 : Rat) ≠ 0 := by norm_num
  have hscaled : (if 5 ≤ exponent q then q / (10 ^ (exponent q - 5).toNat : Nat)
      else q * (10 ^ (5 - exponent q).toNat : Nat)) = q * 10 ^ (5 - exponent q) := by
    push_cast
    split_ifs with h
    · rw [← zpow_natCast, Int.toNat_of_nonneg (by omega), div_eq_mul_inv, ← zpow_neg, neg_sub]
    · rw [← zpow_natCast, Int.toNat_of_nonneg (by omega)]
  have hpos : (0 : Rat) < 10 ^ (5 - exponent q) := zpow_pos (by norm_num) _
  obtain ⟨hmlow, hmhigh⟩ := roundHalfEven_bounds (q := q * 10 ^ (5 - exponent q))
    (a := 10 ^ 5) (b := 10 ^ 6)
    (by
      calc (((10 ^ 5 : Int)) : Rat) = 10 ^ exponent q * 10 ^ (5 - exponent q) := by
            rw [← zpow_add₀ hten, show exponent q + (5 - exponent q) = 5 by omega]
            norm_num
        _ ≤ q * 10 ^ (5 - exponent q) := mul_le_mul_of_nonneg_right hlow hpos.le)
    (by
      calc q * 10 ^ (5 - exponent q) < 10 ^ (exponent q + 1) * 10 ^ (5 - exponent q) :=
            mul_lt_mul_of_pos_right hhigh hpos
        _ = (((10 ^ 6 : Int)) : Rat) := by
            rw [← zpow_add₀ hten, show exponent q + 1 + (5 - exponent q) = 6 by omega]
            norm_num)
  have hsix : ∀ m, 10 ^ 5 ≤ m → m < 10 ^ 6 → (Nat.toDigits 10 m).length = 6 := by
    intro m h₁ h₂
    obtain ⟨k, hk, hk₁, hk₂⟩ := length_toDigits (n := m) (by omega)
    have hlt₁ : k < 6 := (Nat.pow_lt_pow_iff_right (by decide)).mp (hk₁.trans_lt h₂)
    have hlt₂ : 5 < k + 1 := (Nat.pow_lt_pow_iff_right (by decide)).mp (h₁.trans_lt hk₂)
    omega
  unfold significant rounded
  dsimp only
  rw [hscaled]
  generalize roundHalfEven (q * 10 ^ (5 - exponent q)) = i at *
  split_ifs with htop
  · refine ⟨10 ^ 5, exponent q + 1, rfl, hsix _ le_rfl (by decide), ?_⟩
    rw [show i = 10 ^ 6 by omega, show exponent q + 1 - 5 = 1 + (exponent q - 5) by omega,
      zpow_add₀ hten]
    push_cast
    ring
  · refine ⟨i.toNat, exponent q, rfl, hsix _ (by omega) (by omega), ?_⟩
    rw [← Int.cast_natCast, Int.toNat_of_nonneg (by omega)]

/-! ## The text -/

/-- A whole number in decimal digits, without leading zeros. -/
structure IsWhole (cs : List Char) : Prop where
  ne : cs ≠ []
  digits : ∀ c ∈ cs, c.isDigit = true
  lead : cs.head? = some '0' → cs = ['0']

theorem isDigit_of_mem (n : Nat) : ∀ c ∈ Nat.toDigits 10 n, c.isDigit = true :=
  fun _ hc => Nat.isDigit_of_mem_toDigits (by decide) (by decide) hc

theorem isWhole_toDigits (n : Nat) : IsWhole (Nat.toDigits 10 n) where
  ne := Nat.toDigits_ne_nil
  digits := isDigit_of_mem n
  lead := by
    induction n using Nat.strongRecOn with
    | ind n ih =>
      intro hlead
      by_cases hsmall : n < 10
      · rw [Nat.toDigits_of_lt_base hsmall] at hlead ⊢
        rw [Option.some.inj hlead]
      · rw [Nat.toDigits_of_base_le (by decide) (by omega)] at hlead
        rw [List.head?_append_of_ne_nil _ Nat.toDigits_ne_nil] at hlead
        have hzero := ih (n / 10) (by omega) hlead
        have hvalue : n / 10 = 0 := by
          rw [← Nat.ofDigitChars_ten_toDigits (n := n / 10), hzero]
          rfl
        omega

theorem IsWhole.take (h : IsWhole cs) (k : Nat) : IsWhole (cs.take (k + 1)) where
  ne := by simp [h.ne]
  digits := fun c hc => h.digits c (List.mem_of_mem_take hc)
  lead := by
    intro hlead
    rw [List.head?_take, if_neg (Nat.succ_ne_zero k)] at hlead
    rw [h.lead hlead, List.take_succ_cons, List.take_nil]

/-- What is written of an exponent. -/
inductive IsPower : List Char → Int → Prop where
  | none : IsPower [] 0
  | of (e : Int) (ds : List Char) (ne : ds ≠ []) (digits : ∀ c ∈ ds, c.isDigit = true)
      (value : Nat.ofDigitChars 10 ds 0 = e.natAbs) :
      IsPower ('e' :: (if e < 0 then '-' else '+') :: ds) e

theorem dropZeros_append (ds : List Char) :
    ∃ zeros, ds = dropZeros ds ++ List.replicate zeros '0' := by
  refine ⟨(ds.reverse.takeWhile (· == '0')).length, ?_⟩
  have hzeros : ds.reverse.takeWhile (· == '0') =
      List.replicate (ds.reverse.takeWhile (· == '0')).length '0' :=
    List.eq_replicate_of_mem fun c hc => by simpa using List.mem_takeWhile_imp hc
  conv_lhs => rw [← List.reverse_reverse ds,
    ← List.takeWhile_append_dropWhile (p := (· == '0')) (l := ds.reverse), List.reverse_append,
    hzeros, List.reverse_replicate]
  rfl

/-- Zeros at the end of a fraction are worth nothing. -/
theorem value_dropZeros (whole ds : List Char) (e : Int) :
    (Nat.ofDigitChars 10 (whole ++ dropZeros ds) 0 : Rat) * 10 ^ (e - (dropZeros ds).length) =
      Nat.ofDigitChars 10 (whole ++ ds) 0 * 10 ^ (e - ds.length) := by
  obtain ⟨zeros, hzeros⟩ := dropZeros_append ds
  generalize dropZeros ds = kept at *
  subst hzeros
  rw [← List.append_assoc, Nat.ofDigitChars_append 0 (l := whole ++ kept),
    Nat.ofDigitChars_replicate_zero, List.length_append, List.length_replicate]
  have hsplit : e - kept.length = zeros + (e - ((kept.length + zeros : Nat) : Int)) := by
    push_cast
    ring
  rw [hsplit, zpow_add₀ (by norm_num), zpow_natCast]
  push_cast
  ring

theorem toList_fraction (ds : List Char) :
    fraction ds = if dropZeros ds = [] then [] else '.' :: dropZeros ds := by
  unfold fraction
  split
  · next h => rw [if_pos h]
  · next h => rw [if_neg h]

theorem isDigit_of_mem_dropZeros {ds : List Char} (h : ∀ c ∈ ds, c.isDigit = true) :
    ∀ c ∈ dropZeros ds, c.isDigit = true := by
  obtain ⟨zeros, hzeros⟩ := dropZeros_append ds
  intro c hc
  rw [hzeros] at h
  exact h c (List.mem_append_left _ hc)

/-- How a text is made up, and what it is worth. -/
structure Parts (text : List Char) (q : Rat) where
  whole : List Char
  digits : List Char
  power : List Char
  e : Int
  text_eq : text = whole ++ (if digits = [] then [] else '.' :: digits) ++ power
  isWhole : IsWhole whole
  length : whole.length ≤ 6
  isDigit : ∀ c ∈ digits, c.isDigit = true
  isPower : IsPower power e
  value : (Nat.ofDigitChars 10 (whole ++ digits) 0 : Rat) * 10 ^ (e - digits.length) = q

/-- An exponent in two digits or more. -/
theorem isPower_toDigits (e : Int) :
    IsPower ('e' :: (if e < 0 then '-' else '+') ::
      (if (Nat.toDigits 10 e.natAbs).length < 2 then '0' :: Nat.toDigits 10 e.natAbs
        else Nat.toDigits 10 e.natAbs)) e := by
  have hdigits := isDigit_of_mem e.natAbs
  by_cases hone : (Nat.toDigits 10 e.natAbs).length < 2
  · rw [if_pos hone]
    exact .of e _ (List.cons_ne_nil _ _) (List.forall_mem_cons.mpr ⟨rfl, hdigits⟩)
      Nat.ofDigitChars_ten_toDigits
  · rw [if_neg hone]
    exact .of e _ Nat.toDigits_ne_nil hdigits Nat.ofDigitChars_ten_toDigits

theorem format_eq (hq : 0 < q) : Nonempty (Parts (format q).toList (rounded q)) := by
  obtain ⟨m, e, hsig, hsix, hvalue⟩ := significant_spec hq
  have hall := isDigit_of_mem m
  have hm : (Nat.ofDigitChars 10 (Nat.toDigits 10 m) 0 : Rat) = m := by
    rw [Nat.ofDigitChars_ten_toDigits]
  unfold format
  rw [hsig, hvalue]
  dsimp only
  by_cases hrange : -4 ≤ e ∧ e < 6
  · rw [if_pos hrange]
    by_cases hnonneg : 0 ≤ e
    · -- the digits up to the point are whole
      obtain ⟨k, rfl⟩ := Int.eq_ofNat_of_zero_le hnonneg
      rw [if_pos hnonneg, String.toList_ofList, Int.toNat_natCast, toList_fraction]
      refine ⟨(Nat.toDigits 10 m).take (k + 1), dropZeros ((Nat.toDigits 10 m).drop (k + 1)), [],
        0, (List.append_nil _).symm, (isWhole_toDigits m).take k, ?_,
        isDigit_of_mem_dropZeros fun c hc => hall c (List.mem_of_mem_drop hc), .none, ?_⟩
      · exact (List.length_take_le _ _).trans (by omega)
      · rw [value_dropZeros, List.take_append_drop, hm, List.length_drop, hsix]
        congr 2
        omega
    · -- zeros after the point come before the digits
      rw [if_neg hnonneg, String.toList_ofList, toList_fraction]
      refine ⟨['0'], dropZeros (List.replicate (-e - 1).toNat '0' ++ Nat.toDigits 10 m), [], 0,
        (List.append_nil _).symm, isWhole_toDigits 0, by decide, isDigit_of_mem_dropZeros ?_, .none,
        ?_⟩
      · intro c hc
        rcases List.mem_append.mp hc with hzero | hdigit
        · rw [List.eq_of_mem_replicate hzero]
          rfl
        · exact hall c hdigit
      · have hzeros : Nat.ofDigitChars 10
            (['0'] ++ (List.replicate (-e - 1).toNat '0' ++ Nat.toDigits 10 m)) 0 = m := by
          rw [Nat.ofDigitChars_append, Nat.ofDigitChars_append, Nat.ofDigitChars_replicate_zero,
            show Nat.ofDigitChars 10 ['0'] 0 = 0 from rfl, Nat.mul_zero,
            Nat.ofDigitChars_ten_toDigits]
        rw [value_dropZeros, hzeros, List.length_append, List.length_replicate, hsix]
        congr 2
        omega
  · -- one digit before the point, and an exponent
    rw [if_neg hrange, String.toList_ofList, toList_fraction]
    refine ⟨(Nat.toDigits 10 m).take 1, dropZeros ((Nat.toDigits 10 m).drop 1), _, e, rfl,
      (isWhole_toDigits m).take 0, ?_,
      isDigit_of_mem_dropZeros fun c hc => hall c (List.mem_of_mem_drop hc),
      isPower_toDigits e, ?_⟩
    · exact (List.length_take_le _ _).trans (by decide)
    · rw [value_dropZeros, List.take_append_drop, hm, List.length_drop, hsix]
      rfl

end General
