/-
  Slas.Lib.JsonText

  The compact JSON text reads back: `parseValue_dump` by induction on the
  value, `parseValue_append` by induction on the fuel.  `Delimited` is the one
  side condition: a number is read as long as digits follow, so what comes
  after a value must not continue a number.
-/

import Mathlib.Tactic.IntervalCases
import Slas.Lib.Json

namespace Json

/-- What follows a value does not continue a number. -/
def Delimited (r : List Char) : Prop := ∀ c, r.head? = some c → c.isDigit = false ∧ c ≠ '.'

theorem Delimited.nil : Delimited [] := fun _ h => by simp at h

theorem Delimited.cons {c : Char} {r : List Char} (hd : c.isDigit = false) (hdot : c ≠ '.') :
    Delimited (c :: r) := by
  intro c' h
  obtain rfl : c = c' := by simpa using h
  exact ⟨hd, hdot⟩

/-! ## Numbers -/

theorem parseDigits_append {ds r : List Char} (hds : ∀ c ∈ ds, c.isDigit = true)
    (hr : ∀ c, r.head? = some c → c.isDigit = false) : parseDigits (ds ++ r) = (ds, r) := by
  induction ds with
  | nil =>
    cases r with
    | nil => rfl
    | cons c r => simp [parseDigits, hr c rfl]
  | cons d ds ih =>
    have hd : d.isDigit = true := hds d (List.mem_cons_self ..)
    have ih' := ih (fun c hc => hds c (List.mem_cons_of_mem _ hc))
    simp [parseDigits, hd, ih']

theorem isDigit_of_mem_padDigits (k n : Nat) : ∀ c ∈ padDigits k n, c.isDigit = true := by
  induction k generalizing n with
  | zero => simp [padDigits]
  | succ k ih =>
    intro c hc
    rcases List.mem_append.mp hc with hc | hc
    · exact ih _ c hc
    · obtain rfl := List.mem_singleton.mp hc
      rw [Nat.isDigit_digitChar]
      exact decide_eq_true (Nat.mod_lt _ (by decide))

theorem length_padDigits (k n : Nat) : (padDigits k n).length = k := by
  induction k generalizing n with
  | zero => rfl
  | succ k ih => simp [padDigits, ih]

theorem ofDigitChars_padDigits (k n : Nat) :
    Nat.ofDigitChars 10 (padDigits k n) 0 = n % 10 ^ k := by
  induction k generalizing n with
  | zero => simp [padDigits, Nat.mod_one]
  | succ k ih =>
    have hlt : n % 10 < 10 := Nat.mod_lt _ (by decide)
    rw [padDigits, Nat.ofDigitChars_append, ih,
      Nat.ofDigitChars_cons_digitChar_of_lt_ten hlt, Nat.ofDigitChars_nil]
    rw [Nat.pow_succ, Nat.mul_comm (10 ^ k) 10, Nat.mod_mul]
    omega

/-- The digits before and after the point give the mantissa back. -/
theorem ofDigitChars_split (m k : Nat) :
    Nat.ofDigitChars 10 (Nat.toDigits 10 (m / 10 ^ k) ++ padDigits k m) 0 = m := by
  rw [Nat.ofDigitChars_append, Nat.ofDigitChars_ten_toDigits,
    Nat.ofDigitChars_eq_ofDigitChars_zero, ofDigitChars_padDigits, length_padDigits]
  exact Nat.div_add_mod m (10 ^ k)

theorem isDigit_of_mem_wholeDigits (n : Nat) :
    ∀ c ∈ Nat.toDigits 10 n, c.isDigit = true :=
  fun _ hc => Nat.isDigit_of_mem_toDigits (by decide) (by decide) hc

/-- An unsigned number text starts with a digit, so never with the sign. -/
theorem toDigits_eq_cons (n : Nat) :
    ∃ d ds, Nat.toDigits 10 n = d :: ds ∧ d.isDigit = true := by
  cases h : Nat.toDigits 10 n with
  | nil => exact absurd h Nat.toDigits_ne_nil
  | cons d ds =>
    exact ⟨d, ds, rfl, isDigit_of_mem_wholeDigits n d (by rw [h]; exact List.mem_cons_self ..)⟩

theorem parseUnsigned_append (m k : Nat) (neg : Bool) {r : List Char} (hr : Delimited r) :
    parseUnsigned neg (Nat.toDigits 10 (m / 10 ^ k) ++
      (if k = 0 then [] else '.' :: padDigits k m) ++ r) = some (⟨neg, m, k⟩, r) := by
  unfold parseUnsigned
  rw [List.append_assoc]
  by_cases hk : k = 0
  · subst hk
    simp only [Nat.pow_zero, Nat.div_one, if_true, List.nil_append]
    rw [parseDigits_append (isDigit_of_mem_wholeDigits m) (fun c hc => (hr c hc).1)]
    simp only [Nat.toDigits_ne_nil, if_false, Nat.ofDigitChars_ten_toDigits]
    cases r with
    | nil => rfl
    | cons c r =>
      have hdot : c ≠ '.' := (hr c rfl).2
      split
      · rename_i heq
        exact absurd (List.cons.inj heq).1 hdot
      · rfl
  · have hfrac : padDigits k m ≠ [] := by
      intro h
      have := length_padDigits k m
      rw [h] at this
      exact hk this.symm
    have hpoint : ∀ c, ('.' :: (padDigits k m ++ r)).head? = some c → c.isDigit = false := by
      intro c hc
      obtain rfl : '.' = c := by simpa using hc
      decide
    simp only [hk, if_false, List.cons_append]
    rw [parseDigits_append (isDigit_of_mem_wholeDigits _) hpoint]
    simp only [Nat.toDigits_ne_nil, if_false]
    rw [parseDigits_append (isDigit_of_mem_padDigits k m) (fun c hc => (hr c hc).1)]
    simp only [hfrac, if_false, ofDigitChars_split, length_padDigits]

/-- The head of a number text tells it from every other value. -/
theorem dumpNum_eq_cons (d : Decimal) :
    ∃ c cs, dumpNum d = c :: cs ∧ (c = '-' ∨ c.isDigit = true) := by
  obtain ⟨c, ds, hcs, hc⟩ := toDigits_eq_cons (d.mant / 10 ^ d.scale)
  cases hneg : d.neg with
  | true => simp [dumpNum, hneg]
  | false => simp [dumpNum, hneg, hcs, hc]

theorem parseNum_dumpNum (d : Decimal) {r : List Char} (hr : Delimited r) :
    parseNum (dumpNum d ++ r) = some (d, r) := by
  obtain ⟨neg, m, k⟩ := d
  have h := parseUnsigned_append m k neg hr
  cases neg with
  | true => exact h
  | false =>
    obtain ⟨c, ds, hcs, hc⟩ := toDigits_eq_cons (m / 10 ^ k)
    have hne : c ≠ '-' := by rintro rfl; simp at hc
    simp only [hcs, List.cons_append] at h
    simp only [dumpNum, hcs, Bool.false_eq_true, if_false, List.nil_append, List.cons_append]
    unfold parseNum
    split
    · rename_i heq
      exact absurd (List.cons.inj heq).1 hne
    · exact h

/-! ## Strings -/

theorem hexVal_digitChar {n : Nat} (h : n < 16) : hexVal (Nat.digitChar n) = some n := by
  interval_cases n <;> decide

theorem parseChars_escapeChar (c : Char) {cs r t : List Char} (h : parseChars t = some (cs, r)) :
    parseChars (escapeChar c ++ t) = some (c :: cs, r) := by
  unfold escapeChar
  split_ifs with h1 h2 h3 h4 h5 h6 h7 h8
  · subst h1; simp [parseChars, unescape, h]
  · subst h2; simp [parseChars, unescape, h]
  · subst h3; simp [parseChars, unescape, h]
  · subst h4; simp [parseChars, unescape, h]
  · subst h5; simp [parseChars, unescape, h]
  · subst h6; simp [parseChars, unescape, h]
  · subst h7; simp [parseChars, unescape, h]
  · have hhi : c.toNat / 16 < 16 := by omega
    have hlo : c.toNat % 16 < 16 := Nat.mod_lt _ (by decide)
    have hval : ((0 * 16 + 0) * 16 + c.toNat / 16) * 16 + c.toNat % 16 = c.toNat := by omega
    simp only [List.cons_append, List.nil_append, parseChars, h, hexVal_digitChar hhi,
      hexVal_digitChar hlo, show hexVal '0' = some 0 from by decide, hval, Char.ofNat_toNat]
  · -- an unescaped character is read as itself
    simp only [List.cons_append, List.nil_append]
    unfold parseChars
    split
    · rename_i heq; cases heq
    · rename_i heq; exact absurd (List.cons.inj heq).1 h1
    · rename_i heq; exact absurd (List.cons.inj heq).1 h2
    · rename_i heq; exact absurd (List.cons.inj heq).1 h2
    · rename_i heq
      obtain ⟨rfl, rfl⟩ := List.cons.inj heq
      simp [h8, h]

theorem parseChars_dumpChars (s r : List Char) :
    parseChars (dumpChars s ++ r) = some (s, r) := by
  induction s with
  | nil => rfl
  | cons c s ih =>
    rw [dumpChars, List.append_assoc]
    exact parseChars_escapeChar c ih

/-! ## Values: reading undoes writing -/

/-- A number text is read by the number branch of `parseValue`. -/
theorem parseValue_num {n : Nat} {c : Char} {cs : List Char} (hc : c = '-' ∨ c.isDigit = true) :
    parseValue (n + 1) (c :: cs) =
      match parseNum (c :: cs) with
      | some (d, r') => some (.num d, r')
      | none => none := by
  have hsep : ∀ x ∈ ['n', 't', 'f', '"', '[', '{'], c ≠ x := by
    intro x hx hcx
    subst hcx
    rcases hc with rfl | hd
    · simp at hx
    · simp only [List.mem_cons, List.not_mem_nil, or_false] at hx
      rcases hx with rfl | rfl | rfl | rfl | rfl | rfl <;> simp at hd
  simp only [List.mem_cons, List.not_mem_nil, or_false, forall_eq_or_imp, forall_eq] at hsep
  obtain ⟨h1, h2, h3, h4, h5, h6⟩ := hsep
  -- the equation of the last branch asks that no earlier pattern matches
  rw [parseValue]
  all_goals first
    | rfl
    | intro r heq
      have hhead := (List.cons.inj heq).1
      contradiction

/-- No value text starts with a closing bracket. -/
theorem dump_head (j : Json) : ∃ c cs, dump j = c :: cs ∧ c ≠ ']' ∧ c ≠ '}' := by
  cases j with
  | null => exact ⟨_, _, rfl, by decide, by decide⟩
  | bool b => cases b <;> exact ⟨_, _, rfl, by decide, by decide⟩
  | num d =>
    obtain ⟨c, cs, hcs, hc⟩ := dumpNum_eq_cons d
    refine ⟨c, cs, hcs, ?_, ?_⟩ <;> rintro rfl <;> simp at hc
  | str s => exact ⟨_, _, rfl, by decide, by decide⟩
  | arr xs => exact ⟨_, _, rfl, by decide, by decide⟩
  | obj kvs => exact ⟨_, _, rfl, by decide, by decide⟩

theorem parseValue_arr {n : Nat} {c : Char} {cs : List Char} (hc : c ≠ ']') :
    parseValue (n + 1) ('[' :: c :: cs) =
      match parseItems n (c :: cs) with
      | some (xs, r') => some (.arr xs, r')
      | none => none := by
  rw [parseValue]
  all_goals first
    | rfl
    | intro r heq
      exact hc (List.cons.inj heq).1

theorem parseValue_obj {n : Nat} {c : Char} {cs : List Char} (hc : c ≠ '}') :
    parseValue (n + 1) ('{' :: c :: cs) =
      match parseFields n (c :: cs) with
      | some (kvs, r') => some (.obj kvs, r')
      | none => none := by
  rw [parseValue]
  all_goals first
    | rfl
    | intro r heq
      exact hc (List.cons.inj heq).1

mutual

/-- Reading undoes writing, whatever delimited text follows. -/
theorem parseValue_dump : ∀ (j : Json) (n : Nat) (r : List Char), (dump j).length < n →
    Delimited r → parseValue n (dump j ++ r) = some (j, r)
  | _, 0, _, hn, _ => absurd hn (by omega)
  | .null, _ + 1, r, _, _ => by simp [dump, parseValue]
  | .bool true, _ + 1, r, _, _ => by simp [dump, parseValue]
  | .bool false, _ + 1, r, _, _ => by simp [dump, parseValue]
  | .num d, n + 1, r, _, hr => by
    obtain ⟨c, cs, hcs, hc⟩ := dumpNum_eq_cons d
    have hnum := parseNum_dumpNum d hr
    simp only [dump, hcs, List.cons_append] at hnum ⊢
    rw [parseValue_num hc, hnum]
  | .str s, _ + 1, r, _, _ => by
    simp [dump, dumpStr, parseValue, parseChars_dumpChars]
  | .arr [], _ + 1, r, _, _ => by simp [dump, dumpItems, parseValue]
  | .arr (x :: xs), n + 1, r, hn, _ => by
    have ih := parseItems_dump (x :: xs) n r (by simpa [dump] using hn) (by simp)
    obtain ⟨c, cs, hcs, hc⟩ : ∃ c cs, dumpItems (x :: xs) = c :: cs ∧ c ≠ ']' := by
      obtain ⟨c, cs, hcs, hc, -⟩ := dump_head x
      cases xs with
      | nil => simp [dumpItems, hcs, hc]
      | cons y ys => simp [dumpItems, hcs, hc]
    simp only [dump, hcs, List.cons_append] at ih ⊢
    rw [parseValue_arr hc, ih]
  | .obj [], _ + 1, r, _, _ => by simp [dump, dumpFields, parseValue]
  | .obj ((k, v) :: kvs), n + 1, r, hn, _ => by
    have ih := parseFields_dump ((k, v) :: kvs) n r (by simpa [dump] using hn) (by simp)
    obtain ⟨cs, hcs⟩ : ∃ cs, dumpFields ((k, v) :: kvs) = '"' :: cs := by
      cases kvs with
      | nil => simp [dumpFields, dumpField, dumpStr]
      | cons kw kws => simp [dumpFields, dumpField, dumpStr]
    simp only [dump, hcs, List.cons_append] at ih ⊢
    rw [parseValue_obj (by decide), ih]

theorem parseItems_dump : ∀ (xs : List Json) (n : Nat) (r : List Char),
    (dumpItems xs).length < n → xs ≠ [] → parseItems n (dumpItems xs ++ r) = some (xs, r)
  | _, 0, _, hn, _ => absurd hn (by omega)
  | [], _ + 1, _, _, hne => absurd rfl hne
  | [x], n + 1, r, hn, _ => by
    simp only [dumpItems, List.length_append, List.length_cons, List.length_nil] at hn
    have ih := parseValue_dump x n (']' :: r) (by omega) (.cons (by decide) (by decide))
    simp [dumpItems, parseItems, ih]
  | x :: y :: ys, n + 1, r, hn, _ => by
    simp only [dumpItems, List.length_append, List.length_cons] at hn
    have ih := parseValue_dump x n (',' :: (dumpItems (y :: ys) ++ r)) (by omega)
      (.cons (by decide) (by decide))
    have ih' := parseItems_dump (y :: ys) n r (by omega) (by simp)
    simp [dumpItems, parseItems, ih, ih']

theorem parseFields_dump : ∀ (kvs : List (String × Json)) (n : Nat) (r : List Char),
    (dumpFields kvs).length < n → kvs ≠ [] →
    parseFields n (dumpFields kvs ++ r) = some (kvs, r)
  | _, 0, _, hn, _ => absurd hn (by omega)
  | [], _ + 1, _, _, hne => absurd rfl hne
  | [(k, v)], n + 1, r, hn, _ => by
    simp only [dumpFields, dumpField, List.length_append, List.length_cons, List.length_nil] at hn
    have ih := parseValue_dump v n ('}' :: r) (by omega) (.cons (by decide) (by decide))
    simp [dumpFields, dumpField, dumpStr, parseFields, parseChars_dumpChars, ih]
  | (k, v) :: kw :: kws, n + 1, r, hn, _ => by
    simp only [dumpFields, dumpField, List.length_append, List.length_cons] at hn
    have ih := parseValue_dump v n (',' :: (dumpFields (kw :: kws) ++ r)) (by omega)
      (.cons (by decide) (by decide))
    have ih' := parseFields_dump (kw :: kws) n r (by omega) (by simp)
    simp [dumpFields, dumpField, dumpStr, parseFields, parseChars_dumpChars, ih, ih']

end

theorem loads_dump (j : Json) : loads (dump j) = some j := by
  have h := parseValue_dump j ((dump j).length + 1) [] (by omega) Delimited.nil
  rw [List.append_nil] at h
  simp [loads, h]

/-! ## Values: what was read stays read when more text follows -/

theorem parseDigits_extend {cs ds r : List Char} (h : parseDigits cs = (ds, r)) (hr : r ≠ [])
    (t : List Char) : parseDigits (cs ++ t) = (ds, r ++ t) := by
  induction cs generalizing ds with
  | nil =>
    obtain ⟨-, rfl⟩ := Prod.mk.inj h
    exact absurd rfl hr
  | cons c cs ih =>
    simp only [parseDigits, List.cons_append] at h ⊢
    split at h
    · rename_i hc
      obtain ⟨rfl, hrest⟩ := Prod.mk.inj h
      rw [if_pos hc, ih (Prod.ext rfl hrest)]
    · rename_i hc
      obtain ⟨rfl, rfl⟩ := Prod.mk.inj h
      rw [if_neg hc, List.cons_append]

theorem parseUnsigned_extend {neg : Bool} {cs r : List Char} {d : Decimal}
    (h : parseUnsigned neg cs = some (d, r)) (hr : r ≠ []) (t : List Char) :
    parseUnsigned neg (cs ++ t) = some (d, r ++ t) := by
  unfold parseUnsigned at h ⊢
  cases hw : parseDigits cs with
  | mk whole rest =>
    simp only [hw] at h
    split_ifs at h with hne
    split at h
    · rename_i r'
      rw [parseDigits_extend hw (by simp)]
      cases hf : parseDigits r' with
      | mk frac rest' =>
        simp only [hf] at h
        split_ifs at h with hfne
        obtain ⟨rfl, rfl⟩ := Prod.mk.inj (Option.some.inj h)
        simp only [hne, if_false, List.cons_append]
        rw [parseDigits_extend hf hr]
        simp [hfne]
    · rename_i hdot
      obtain ⟨rfl, rfl⟩ := Prod.mk.inj (Option.some.inj h)
      rw [parseDigits_extend hw hr]
      simp only [hne, if_false]
      split
      · rename_i heq
        cases rest with
        | nil => exact absurd rfl hr
        | cons c rest =>
          exact absurd (congrArg (· :: rest) (List.cons.inj heq).1) (hdot rest)
      · rfl

theorem parseNum_extend {cs r : List Char} {d : Decimal} (h : parseNum cs = some (d, r))
    (hr : r ≠ []) (t : List Char) : parseNum (cs ++ t) = some (d, r ++ t) := by
  unfold parseNum at h
  split at h
  · exact parseUnsigned_extend h hr t
  · rename_i hsign
    have hext := parseUnsigned_extend h hr t
    cases cs with
    | nil => simp [parseUnsigned, parseDigits] at h
    | cons c cs =>
      unfold parseNum
      split
      · rename_i heq
        exact absurd (congrArg (· :: cs) (List.cons.inj heq).1) (hsign cs)
      · exact hext

theorem parseNum_head {cs r : List Char} {d : Decimal} (h : parseNum cs = some (d, r)) :
    ∃ c cs', cs = c :: cs' ∧ (c = '-' ∨ c.isDigit = true) := by
  unfold parseNum at h
  split at h
  · exact ⟨_, _, rfl, Or.inl rfl⟩
  · cases cs with
    | nil => simp [parseUnsigned, parseDigits] at h
    | cons c cs =>
      refine ⟨c, cs, rfl, Or.inr ?_⟩
      by_contra hc
      simp [parseUnsigned, parseDigits, hc] at h

theorem parseChars_extend {cs s r : List Char} (h : parseChars cs = some (s, r)) (t : List Char) :
    parseChars (cs ++ t) = some (s, r ++ t) := by
  fun_induction parseChars cs generalizing s with
  | case1 => cases h
  | case2 r' =>
    obtain ⟨rfl, rfl⟩ := Prod.mk.inj (Option.some.inj h)
    simp [parseChars]
  | case3 h₃ h₂ h₁ h₀ r' a b c d cs' r'' hrec hd hc hb ha ih =>
    obtain ⟨rfl, rfl⟩ := Prod.mk.inj (Option.some.inj h)
    simp [parseChars, ha, hb, hc, hd, ih hrec]
  | case4 => cases h
  | case5 e r' hu c cs' r'' hrec hc ih =>
    obtain ⟨rfl, rfl⟩ := Prod.mk.inj (Option.some.inj h)
    have he : e ≠ 'u' := by rintro rfl; simp [unescape] at hc
    simp only [List.cons_append]
    rw [parseChars]
    · rw [hc, ih hrec]
    · intro _ _ _ _ _ heu _
      exact he heu
  | case6 => cases h
  | case7 => cases h
  | case8 c r' h1 h2 h3 hc cs' r'' hrec ih =>
    obtain ⟨rfl, rfl⟩ := Prod.mk.inj (Option.some.inj h)
    -- a lone backslash at the end of the text is no string
    have hback : c ≠ '\\' := by
      intro hcb
      cases r' with
      | nil => simp [parseChars] at hrec
      | cons e r' => exact h3 e r' hcb rfl
    simp only [List.cons_append]
    rw [parseChars]
    · rw [if_neg hc, ih hrec]
    · exact h1
    · intro _ _ _ _ _ hcb _
      exact hback hcb
    · intro _ _ hcb _
      exact hback hcb
  | case9 => cases h

/-- Only a number at the very end of the text can grow when more text follows. -/
def endsOpen : Json → List Char → Prop
  | .num _, [] => True
  | _, _ => False

theorem endsOpen_cons {j : Json} {c : Char} {r : List Char} : ¬ endsOpen j (c :: r) := by
  cases j <;> exact id

/-- The three readers at one fuel, with more fuel and any text after. -/
def Extends (n : Nat) : Prop :=
  (∀ cs j r k t, parseValue n cs = some (j, r) → ¬ endsOpen j r →
    parseValue (n + k) (cs ++ t) = some (j, r ++ t)) ∧
  (∀ cs xs r k t, parseItems n cs = some (xs, r) →
    parseItems (n + k) (cs ++ t) = some (xs, r ++ t)) ∧
  (∀ cs kvs r k t, parseFields n cs = some (kvs, r) →
    parseFields (n + k) (cs ++ t) = some (kvs, r ++ t))

theorem parseItems_head {n : Nat} {cs r : List Char} {xs : List Json}
    (h : parseItems n cs = some (xs, r)) : cs ≠ [] := by
  rintro rfl
  cases n with
  | zero => simp [parseItems] at h
  | succ n =>
    cases n with
    | zero => simp [parseItems, parseValue] at h
    | succ n => simp [parseItems, parseValue, parseNum, parseUnsigned, parseDigits] at h

theorem parseFields_head {n : Nat} {cs r : List Char} {kvs : List (String × Json)}
    (h : parseFields n cs = some (kvs, r)) : cs ≠ [] := by
  rintro rfl
  cases n <;> simp [parseFields] at h

theorem parseValue_extend_step {n : Nat} (ih : Extends n) {cs r : List Char} {j : Json}
    (k : Nat) (t : List Char) (h : parseValue (n + 1) cs = some (j, r)) (hopen : ¬ endsOpen j r) :
    parseValue (n + k + 1) (cs ++ t) = some (j, r ++ t) := by
  obtain ⟨-, ihItems, ihFields⟩ := ih
  rw [parseValue.eq_def] at h
  simp only at h
  split at h
  · obtain ⟨rfl, rfl⟩ := Prod.mk.inj (Option.some.inj h); simp [parseValue]
  · obtain ⟨rfl, rfl⟩ := Prod.mk.inj (Option.some.inj h); simp [parseValue]
  · obtain ⟨rfl, rfl⟩ := Prod.mk.inj (Option.some.inj h); simp [parseValue]
  · split at h
    · rename_i s r' hs
      obtain ⟨rfl, rfl⟩ := Prod.mk.inj (Option.some.inj h)
      simp [parseValue, parseChars_extend hs t]
    · cases h
  · obtain ⟨rfl, rfl⟩ := Prod.mk.inj (Option.some.inj h); simp [parseValue]
  · rename_i r₁ hne
    split at h
    · rename_i xs r' hxs
      obtain ⟨rfl, rfl⟩ := Prod.mk.inj (Option.some.inj h)
      cases r₁ with
      | nil => exact absurd rfl (parseItems_head hxs)
      | cons c r₁ =>
        have hc : c ≠ ']' := by rintro rfl; exact hne r₁ rfl
        have hext := ihItems _ _ _ k t hxs
        simp only [List.cons_append] at hext ⊢
        rw [parseValue_arr hc, hext]
    · cases h
  · obtain ⟨rfl, rfl⟩ := Prod.mk.inj (Option.some.inj h); simp [parseValue]
  · rename_i r₁ hne
    split at h
    · rename_i kvs r' hkvs
      obtain ⟨rfl, rfl⟩ := Prod.mk.inj (Option.some.inj h)
      cases r₁ with
      | nil => exact absurd rfl (parseFields_head hkvs)
      | cons c r₁ =>
        have hc : c ≠ '}' := by rintro rfl; exact hne r₁ rfl
        have hext := ihFields _ _ _ k t hkvs
        simp only [List.cons_append] at hext ⊢
        rw [parseValue_obj hc, hext]
    · cases h
  · split at h
    · rename_i d r' hd
      obtain ⟨rfl, rfl⟩ := Prod.mk.inj (Option.some.inj h)
      obtain ⟨c, cs', rfl, hc⟩ := parseNum_head hd
      have hr : r' ≠ [] := by rintro rfl; exact hopen trivial
      have hext := parseNum_extend hd hr t
      simp only [List.cons_append] at hext ⊢
      rw [parseValue_num hc, hext]
    · cases h

theorem parseItems_extend_step {n : Nat} (ih : Extends n) {cs r : List Char} {xs : List Json}
    (k : Nat) (t : List Char) (h : parseItems (n + 1) cs = some (xs, r)) :
    parseItems (n + k + 1) (cs ++ t) = some (xs, r ++ t) := by
  obtain ⟨ihValue, ihItems, -⟩ := ih
  rw [parseItems] at h ⊢
  split at h
  · rename_i x r₁ hx
    split at h
    · rename_i ys r₂ hys
      obtain ⟨rfl, rfl⟩ := Prod.mk.inj (Option.some.inj h)
      rw [ihValue _ _ _ k t hx endsOpen_cons, List.cons_append]
      simp only [ihItems _ _ _ k t hys]
    · cases h
  · rename_i x r₁ hx
    obtain ⟨rfl, rfl⟩ := Prod.mk.inj (Option.some.inj h)
    rw [ihValue _ _ _ k t hx endsOpen_cons, List.cons_append]
    rfl
  · cases h

theorem parseFields_extend_step {n : Nat} (ih : Extends n) {cs r : List Char}
    {kvs : List (String × Json)} (k : Nat) (t : List Char)
    (h : parseFields (n + 1) cs = some (kvs, r)) :
    parseFields (n + k + 1) (cs ++ t) = some (kvs, r ++ t) := by
  obtain ⟨ihValue, -, ihFields⟩ := ih
  rw [parseFields.eq_def] at h
  simp only at h
  split at h
  · split at h
    · rename_i key r₁ hkey
      split at h
      · rename_i v r₂ hv
        split at h
        · rename_i kws r₃ hkws
          obtain ⟨rfl, rfl⟩ := Prod.mk.inj (Option.some.inj h)
          simp [parseFields, parseChars_extend hkey t, ihValue _ _ _ k t hv endsOpen_cons,
            ihFields _ _ _ k t hkws]
        · cases h
      · rename_i v r₂ hv
        obtain ⟨rfl, rfl⟩ := Prod.mk.inj (Option.some.inj h)
        simp [parseFields, parseChars_extend hkey t, ihValue _ _ _ k t hv endsOpen_cons]
      · cases h
    · cases h
  · cases h

theorem extends_all (n : Nat) : Extends n := by
  induction n with
  | zero =>
    refine ⟨?_, ?_, ?_⟩
    · intro cs j r k t h; simp [parseValue] at h
    · intro cs xs r k t h; simp [parseItems] at h
    · intro cs kvs r k t h; simp [parseFields] at h
  | succ n ih =>
    refine ⟨?_, ?_, ?_⟩
    · intro cs j r k t h hopen
      rw [Nat.add_right_comm]
      exact parseValue_extend_step ih k t h hopen
    · intro cs xs r k t h
      rw [Nat.add_right_comm]
      exact parseItems_extend_step ih k t h
    · intro cs kvs r k t h
      rw [Nat.add_right_comm]
      exact parseFields_extend_step ih k t h

/-- What was read stays read with more fuel and more text after it, a number at
    the end of the text apart. -/
theorem parseValue_append {n : Nat} {cs r : List Char} {j : Json}
    (h : parseValue n cs = some (j, r)) (hopen : ¬ endsOpen j r) (k : Nat) (t : List Char) :
    parseValue (n + k) (cs ++ t) = some (j, r ++ t) :=
  (extends_all n).1 cs j r k t h hopen

/-- A text that starts with a brace reads as an object. -/
theorem parseValue_brace {n : Nat} {cs r : List Char} {j : Json}
    (h : parseValue n ('{' :: cs) = some (j, r)) : ∃ kvs, j = .obj kvs := by
  cases n with
  | zero => simp [parseValue] at h
  | succ n =>
    cases cs with
    | nil =>
      rw [parseValue] at h
      · split at h
        · rename_i hfields
          exact absurd rfl (parseFields_head hfields)
        · cases h
      · intro r heq; cases heq
    | cons c cs =>
      by_cases hc : c = '}'
      · subst hc
        rw [parseValue] at h
        exact ⟨[], (Prod.mk.inj (Option.some.inj h)).1.symm⟩
      · rw [parseValue_obj hc] at h
        split at h
        · rename_i kvs r' _
          exact ⟨kvs, (Prod.mk.inj (Option.some.inj h)).1.symm⟩
        · cases h

/-- The text of an object is no proper extension of another whole text: cut
    anywhere before its end, it reads as nothing. -/
theorem loads_cut {kvs : List (String × Json)} {cs t : List Char}
    (hcut : cs ++ t = dump (.obj kvs)) (ht : t ≠ []) : loads cs = none := by
  by_contra hsome
  obtain ⟨j, hj⟩ := Option.ne_none_iff_exists'.mp hsome
  have hread : parseValue (cs.length + 1) cs = some (j, []) := by
    unfold loads at hj
    split at hj
    · rename_i j' hparse
      rw [hparse, Option.some.inj hj]
    · cases hj
  have hwhole := parseValue_dump (.obj kvs) (cs.length + 1 + t.length) []
    (by rw [← hcut, List.length_append]; omega) Delimited.nil
  rw [List.append_nil, ← hcut] at hwhole
  -- the cut text starts with the brace, so what it read is an object
  have hopen : ¬ endsOpen j [] := by
    cases cs with
    | nil => simp [parseValue, parseNum, parseUnsigned, parseDigits] at hread
    | cons c cs =>
      obtain rfl : c = '{' := by simpa [dump] using congrArg List.head? hcut
      obtain ⟨kvs', rfl⟩ := parseValue_brace hread
      exact id
  have hext := parseValue_append hread hopen t.length t
  rw [hwhole] at hext
  simp only [List.nil_append, Option.some.injEq, Prod.mk.injEq] at hext
  exact ht hext.2.symm

/-! ## The characters of a text -/

mutual

/-- Every character of every string and key of a value. -/
def chars : Json → List Char
  | .null => []
  | .bool _ => []
  | .num _ => []
  | .str s => s.toList
  | .arr xs => charsItems xs
  | .obj kvs => charsFields kvs

def charsItems : List Json → List Char
  | [] => []
  | x :: xs => chars x ++ charsItems xs

def charsFields : List (String × Json) → List Char
  | [] => []
  | kv :: kvs => charsField kv ++ charsFields kvs

def charsField : String × Json → List Char
  | (k, v) => k.toList ++ chars v

end

/-- The characters a text has beside the strings' own: printable ASCII. -/
def Ascii (c : Char) : Prop := 0x20 ≤ c.toNat ∧ c.toNat < 0x80

theorem ascii_of_isDigit {c : Char} (hc : c.isDigit = true) : Ascii c := by
  simp only [Char.isDigit, Bool.and_eq_true, decide_eq_true_eq] at hc
  have h1 : (48 : UInt32).toNat ≤ c.val.toNat := hc.1
  have h2 : c.val.toNat ≤ (57 : UInt32).toNat := hc.2
  exact ⟨Nat.le_trans (by decide) h1, Nat.lt_of_le_of_lt h2 (by decide)⟩

theorem ascii_of_mem_dumpNum {d : Decimal} {c : Char} (hc : c ∈ dumpNum d) : Ascii c := by
  simp only [dumpNum, List.mem_append] at hc
  rcases hc with (hc | hc) | hc
  · split_ifs at hc
    · obtain rfl := List.mem_singleton.mp hc
      exact ⟨by decide, by decide⟩
    · cases hc
  · exact ascii_of_isDigit (isDigit_of_mem_wholeDigits _ c hc)
  · split_ifs at hc
    · cases hc
    · rcases List.mem_cons.mp hc with rfl | hc
      · exact ⟨by decide, by decide⟩
      · exact ascii_of_isDigit (isDigit_of_mem_padDigits _ _ c hc)

theorem ascii_digitChar {n : Nat} (h : n < 16) : Ascii (Nat.digitChar n) := by
  interval_cases n <;> exact ⟨by decide, by decide⟩

/-- An escape is printable ASCII, or the character itself from U+0020 on. -/
theorem mem_escapeChar {x c : Char} (hx : x ∈ escapeChar c) :
    Ascii x ∨ (x = c ∧ 0x20 ≤ c.toNat) := by
  have hshort : ∀ y : Char, Ascii y → x ∈ ['\\', y] → Ascii x := by
    intro y hy hxy
    simp only [List.mem_cons, List.not_mem_nil, or_false] at hxy
    rcases hxy with rfl | rfl
    · exact ⟨by decide, by decide⟩
    · exact hy
  unfold escapeChar at hx
  split_ifs at hx with h1 h2 h3 h4 h5 h6 h7 h8
  · exact Or.inl (hshort _ ⟨by decide, by decide⟩ hx)
  · exact Or.inl (hshort _ ⟨by decide, by decide⟩ hx)
  · exact Or.inl (hshort _ ⟨by decide, by decide⟩ hx)
  · exact Or.inl (hshort _ ⟨by decide, by decide⟩ hx)
  · exact Or.inl (hshort _ ⟨by decide, by decide⟩ hx)
  · exact Or.inl (hshort _ ⟨by decide, by decide⟩ hx)
  · exact Or.inl (hshort _ ⟨by decide, by decide⟩ hx)
  · simp only [List.mem_cons, List.not_mem_nil, or_false] at hx
    rcases hx with rfl | rfl | rfl | rfl | rfl | rfl
    · exact Or.inl ⟨by decide, by decide⟩
    · exact Or.inl ⟨by decide, by decide⟩
    · exact Or.inl ⟨by decide, by decide⟩
    · exact Or.inl ⟨by decide, by decide⟩
    · exact Or.inl (ascii_digitChar (by omega))
    · exact Or.inl (ascii_digitChar (Nat.mod_lt _ (by decide)))
  · obtain rfl := List.mem_singleton.mp hx
    exact Or.inr ⟨rfl, by omega⟩

/-- A character above ASCII is its own escape. -/
theorem self_mem_escapeChar {c : Char} (hc : 0x80 ≤ c.toNat) : c ∈ escapeChar c := by
  have hne : ∀ y : Char, y.toNat < 0x80 → c ≠ y := by
    rintro y hy rfl
    omega
  unfold escapeChar
  rw [if_neg (hne _ (by decide)), if_neg (hne _ (by decide)), if_neg (hne _ (by decide)),
    if_neg (hne _ (by decide)), if_neg (hne _ (by decide)), if_neg (hne _ (by decide)),
    if_neg (hne _ (by decide)), if_neg (by omega)]
  exact List.mem_singleton.mpr rfl

/-- A text holds printable ASCII of its own, and of `cs` every character above
    ASCII and no character below U+0020. -/
structure Spells (text cs : List Char) : Prop where
  own : ∀ x ∈ text, Ascii x ∨ (x ∈ cs ∧ 0x20 ≤ x.toNat)
  wide : ∀ x ∈ cs, 0x80 ≤ x.toNat → x ∈ text

namespace Spells

variable {text text' cs cs' : List Char}

theorem nil : Spells [] [] := ⟨by simp, by simp⟩

theorem ascii (h : ∀ x ∈ text, Ascii x) : Spells text [] :=
  ⟨fun x hx => Or.inl (h x hx), by simp⟩

theorem append (h : Spells text cs) (h' : Spells text' cs') :
    Spells (text ++ text') (cs ++ cs') := by
  constructor
  · intro x hx
    rcases List.mem_append.mp hx with hx | hx
    · exact (h.own x hx).imp_right (fun hc => ⟨List.mem_append_left _ hc.1, hc.2⟩)
    · exact (h'.own x hx).imp_right (fun hc => ⟨List.mem_append_right _ hc.1, hc.2⟩)
  · intro x hx hwide
    rcases List.mem_append.mp hx with hx | hx
    · exact List.mem_append_left _ (h.wide x hx hwide)
    · exact List.mem_append_right _ (h'.wide x hx hwide)

/-- A structural character in front. -/
theorem cons {c : Char} (hc : Ascii c) (h : Spells text cs) : Spells (c :: text) cs := by
  have hone : Spells [c] [] := ascii (fun x hx => by rwa [List.mem_singleton.mp hx])
  simpa using hone.append h

end Spells

theorem spells_dumpChars (s : List Char) : Spells (dumpChars s) s := by
  induction s with
  | nil => exact .cons ⟨by decide, by decide⟩ .nil
  | cons c s ih =>
    have hc : Spells (escapeChar c) [c] := by
      constructor
      · intro x hx
        rcases mem_escapeChar hx with hascii | ⟨rfl, hlow⟩
        · exact Or.inl hascii
        · exact Or.inr ⟨List.mem_cons_self .., hlow⟩
      · intro x hx hwide
        obtain rfl := List.mem_singleton.mp hx
        exact self_mem_escapeChar hwide
    exact hc.append ih

theorem spells_dumpStr (s : String) : Spells (dumpStr s) s.toList :=
  .cons ⟨by decide, by decide⟩ (spells_dumpChars s.toList)

mutual

/-- What the text of a value is made of. -/
theorem spells_dump : ∀ j : Json, Spells (dump j) (chars j)
  | .null => .ascii (by simp [dump, Ascii])
  | .bool true => .ascii (by simp [dump, Ascii])
  | .bool false => .ascii (by simp [dump, Ascii])
  | .num _ => .ascii (fun _ hx => ascii_of_mem_dumpNum hx)
  | .str s => spells_dumpStr s
  | .arr xs => .cons ⟨by decide, by decide⟩ (spells_dumpItems xs)
  | .obj kvs => .cons ⟨by decide, by decide⟩ (spells_dumpFields kvs)

theorem spells_dumpItems : ∀ xs : List Json, Spells (dumpItems xs) (charsItems xs)
  | [] => .cons ⟨by decide, by decide⟩ .nil
  | [x] => (spells_dump x).append (.cons ⟨by decide, by decide⟩ .nil)
  | x :: y :: ys =>
    (spells_dump x).append (.cons ⟨by decide, by decide⟩ (spells_dumpItems (y :: ys)))

theorem spells_dumpFields : ∀ kvs : List (String × Json), Spells (dumpFields kvs) (charsFields kvs)
  | [] => .cons ⟨by decide, by decide⟩ .nil
  | [kv] => (spells_dumpField kv).append (.cons ⟨by decide, by decide⟩ .nil)
  | kv :: kw :: kws =>
    (spells_dumpField kv).append (.cons ⟨by decide, by decide⟩ (spells_dumpFields (kw :: kws)))

theorem spells_dumpField : ∀ kv : String × Json, Spells (dumpField kv) (charsField kv)
  | (k, v) => (spells_dumpStr k).append (.cons ⟨by decide, by decide⟩ (spells_dump v))

end

end Json
