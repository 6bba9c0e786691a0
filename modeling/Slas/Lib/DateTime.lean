/-
  Slas.Lib.DateTime

  UTC instants as microseconds since 0000-03-01 of the proleptic Gregorian
  calendar, their civil date, and the ISO 8601 text that stands for them in
  JSON (`2026-09-14T08:00:00Z`, with six fraction digits when there are any).
  The text reads back as the same instant: `parseIso_isoformat`.

  Years start in March here, so the leap day is the last of its year; a
  400-year era is cut into centuries, four-year spans and years from the front.
-/

import Slas.Lib.JsonText

/-- A UTC instant, in microseconds since 0000-03-01T00:00:00Z. -/
abbrev DateTime := Nat

namespace DateTime

/-! ## The calendar -/

structure Civil where
  year : Nat
  month : Nat
  day : Nat
  deriving DecidableEq, Repr

/-- The year of the era, counted from March, and the day of that year. -/
def yearOfEra (doe : Nat) : Nat × Nat :=
  let c := min (doe / 36524) 3
  let doc := doe - 36524 * c
  let q := doc / 1461
  let doq := doc % 1461
  let y := min (doq / 365) 3
  (100 * c + 4 * q + y, doq - 365 * y)

def dayOfEra (yoe doy : Nat) : Nat :=
  36524 * (yoe / 100) + 1461 * (yoe % 100 / 4) + 365 * (yoe % 4) + doy

/-- The civil date of a day, counted from 0000-03-01. -/
def civilOfDays (z : Nat) : Civil :=
  let (yoe, doy) := yearOfEra (z % 146097)
  let mp := (5 * doy + 2) / 153
  let y := z / 146097 * 400 + yoe
  let d := doy - (153 * mp + 2) / 5 + 1
  if mp < 10 then ⟨y, mp + 3, d⟩ else ⟨y + 1, mp - 9, d⟩

def daysOfCivil (c : Civil) : Nat :=
  let (y, mp) := if 2 < c.month then (c.year, c.month - 3) else (c.year - 1, c.month + 9)
  y / 400 * 146097 + dayOfEra (y % 400) ((153 * mp + 2) / 5 + (c.day - 1))

example : civilOfDays 740178 = ⟨2026, 9, 14⟩ := by decide

theorem yearOfEra_bounds {doe : Nat} (h : doe < 146097) :
    (yearOfEra doe).1 < 400 ∧ (yearOfEra doe).2 ≤ 365 := by
  simp only [yearOfEra]
  omega

theorem dayOfEra_yearOfEra {doe : Nat} (h : doe < 146097) :
    dayOfEra (yearOfEra doe).1 (yearOfEra doe).2 = doe := by
  simp only [dayOfEra, yearOfEra]
  generalize hc : min (doe / 36524) 3 = c
  generalize hq : (doe - 36524 * c) / 1461 = q
  generalize hd : (doe - 36524 * c) % 1461 = doq
  generalize hy : min (doq / 365) 3 = y
  have hy3 : y ≤ 3 := by omega
  have hq24 : q ≤ 24 := by omega
  have h100 : (100 * c + 4 * q + y) / 100 = c := by omega
  have hmod : (100 * c + 4 * q + y) % 100 / 4 = q := by omega
  have h4 : (100 * c + 4 * q + y) % 4 = y := by omega
  rw [h100, hmod, h4]
  omega

theorem daysOfCivil_civilOfDays (z : Nat) : daysOfCivil (civilOfDays z) = z := by
  have hlt : z % 146097 < 146097 := Nat.mod_lt _ (by decide)
  have hb := yearOfEra_bounds hlt
  have hday := dayOfEra_yearOfEra hlt
  unfold civilOfDays
  cases hyd : yearOfEra (z % 146097) with
  | mk yoe doy =>
    rw [hyd] at hb hday
    simp only at hb hday ⊢
    have hdiv : (z / 146097 * 400 + yoe) / 400 = z / 146097 := by omega
    have hmod : (z / 146097 * 400 + yoe) % 400 = yoe := by omega
    have hdoy : (153 * ((5 * doy + 2) / 153) + 2) / 5 +
        (doy - (153 * ((5 * doy + 2) / 153) + 2) / 5) = doy := by omega
    split_ifs with hmp
    · simp only [daysOfCivil, show 2 < (5 * doy + 2) / 153 + 3 by omega, if_true,
        Nat.add_sub_cancel, hdiv, hmod]
      rw [hdoy, hday]
      omega
    · have hmp9 : (5 * doy + 2) / 153 - 9 + 9 = (5 * doy + 2) / 153 := by omega
      simp only [daysOfCivil, show ¬ 2 < (5 * doy + 2) / 153 - 9 by omega, if_false, hmp9,
        Nat.add_sub_cancel, hdiv, hmod]
      rw [hdoy, hday]
      omega

/-! ## The text -/

/-- A number in decimal, zero-padded on the left to at least `w` digits. -/
def pad (w n : Nat) : List Char :=
  List.replicate (w - (Nat.toDigits 10 n).length) '0' ++ Nat.toDigits 10 n

/-- The fraction of a second, six digits after a point, when there is one. -/
def fraction (us : Nat) : List Char := if us = 0 then [] else '.' :: Json.padDigits 6 us

/-- `2026-09-14T08:00:00Z` -/
def isoformat (t : DateTime) : List Char :=
  let c := civilOfDays (t / 1000000 / 86400)
  let s := t / 1000000 % 86400
  pad 4 c.year ++ '-' :: (pad 2 c.month ++ '-' :: (pad 2 c.day ++ 'T' :: (pad 2 (s / 3600) ++
    ':' :: (pad 2 (s % 3600 / 60) ++ ':' :: (pad 2 (s % 60) ++ (fraction (t % 1000000) ++ ['Z']))))))

/-- A run of digits, as a number, and what follows it. -/
def parseField (cs : List Char) : Nat × List Char :=
  (Nat.ofDigitChars 10 (Json.parseDigits cs).1 0, (Json.parseDigits cs).2)

/-- The next character must be `c`. -/
def expect (c : Char) : List Char → Option (List Char)
  | [] => none
  | d :: r => if d = c then some r else none

def parseFraction : List Char → Option Nat
  | ['Z'] => some 0
  | '.' :: r =>
    match parseField r with
    | (us, ['Z']) => some us
    | _ => none
  | _ => none

def parseIso (cs : List Char) : Option DateTime := do
  let (year, cs) := parseField cs
  let cs ← expect '-' cs
  let (month, cs) := parseField cs
  let cs ← expect '-' cs
  let (day, cs) := parseField cs
  let cs ← expect 'T' cs
  let (hour, cs) := parseField cs
  let cs ← expect ':' cs
  let (minute, cs) := parseField cs
  let cs ← expect ':' cs
  let (second, cs) := parseField cs
  let us ← parseFraction cs
  some ((daysOfCivil ⟨year, month, day⟩ * 86400 + hour * 3600 + minute * 60 + second) * 1000000
    + us)

example : isoformat 63951408000000000 = "2026-09-14T08:00:00Z".toList := by decide

theorem isDigit_of_mem_pad (w n : Nat) : ∀ c ∈ pad w n, c.isDigit = true := by
  intro c hc
  rcases List.mem_append.mp hc with hc | hc
  · obtain rfl := List.eq_of_mem_replicate hc
    decide
  · exact Json.isDigit_of_mem_wholeDigits n c hc

theorem ofDigitChars_pad (w n : Nat) : Nat.ofDigitChars 10 (pad w n) 0 = n := by
  rw [pad, Nat.ofDigitChars_append, Nat.ofDigitChars_replicate_zero, Nat.mul_zero,
    Nat.ofDigitChars_ten_toDigits]

theorem parseField_pad (w n : Nat) {r : List Char}
    (hr : ∀ c, r.head? = some c → c.isDigit = false) : parseField (pad w n ++ r) = (n, r) := by
  simp only [parseField, Json.parseDigits_append (isDigit_of_mem_pad w n) hr, ofDigitChars_pad]

/-- A separator ends a field. -/
theorem parseField_pad_cons (w n : Nat) {c : Char} {r : List Char} (hc : c.isDigit = false) :
    parseField (pad w n ++ c :: r) = (n, c :: r) := by
  apply parseField_pad
  intro d hd
  obtain rfl : c = d := by simpa using hd
  exact hc

theorem fraction_head (us : Nat) :
    ∀ c, (fraction us ++ ['Z']).head? = some c → c.isDigit = false := by
  intro c hc
  unfold fraction at hc
  split_ifs at hc
  · obtain rfl : 'Z' = c := by simpa using hc
    decide
  · obtain rfl : '.' = c := by simpa using hc
    decide

theorem parseFraction_fraction {us : Nat} (h : us < 1000000) :
    parseFraction (fraction us ++ ['Z']) = some us := by
  unfold fraction
  split_ifs with h0
  · subst h0; rfl
  · have hread : parseField (Json.padDigits 6 us ++ ['Z']) = (us, ['Z']) := by
      have hmod : us % 10 ^ 6 = us := Nat.mod_eq_of_lt h
      rw [parseField, Json.parseDigits_append (Json.isDigit_of_mem_padDigits 6 us)
        (fun c hc => by obtain rfl : 'Z' = c := by simpa using hc
                        decide),
        Json.ofDigitChars_padDigits, hmod]
    simp only [List.cons_append, parseFraction, hread]

@[simp] theorem expect_cons (c : Char) (r : List Char) : expect c (c :: r) = some r := by
  simp [expect]

theorem parseIso_isoformat (t : DateTime) : parseIso (isoformat t) = some t := by
  have hus : t % 1000000 < 1000000 := Nat.mod_lt _ (by decide)
  have hciv := daysOfCivil_civilOfDays (t / 1000000 / 86400)
  have hsplit : ∀ u : Nat, (u / 1000000 / 86400 * 86400 + u / 1000000 % 86400 / 3600 * 3600 +
      u / 1000000 % 86400 % 3600 / 60 * 60 + u / 1000000 % 86400 % 60) * 1000000 +
      u % 1000000 = u := by
    intro u
    omega
  simp only [parseIso, isoformat, parseField_pad_cons _ _ (show '-'.isDigit = false by decide),
    parseField_pad_cons _ _ (show 'T'.isDigit = false by decide),
    parseField_pad_cons _ _ (show ':'.isDigit = false by decide),
    parseField_pad _ _ (fraction_head (t % 1000000)), expect_cons, Option.bind_eq_bind,
    Option.bind_some, parseFraction_fraction hus, hciv, hsplit]

/-- Every character of the text is printable ASCII. -/
theorem isoformat_ascii (t : DateTime) : ∀ c ∈ isoformat t, Json.Ascii c := by
  have hpad : ∀ w n, ∀ c ∈ pad w n, Json.Ascii c :=
    fun w n c hc => Json.ascii_of_isDigit (isDigit_of_mem_pad w n c hc)
  have hfrac : ∀ us, ∀ c ∈ fraction us, Json.Ascii c := by
    intro us c hc
    unfold fraction at hc
    split_ifs at hc
    · cases hc
    · rcases List.mem_cons.mp hc with rfl | hc
      · exact ⟨by decide, by decide⟩
      · exact Json.ascii_of_isDigit (Json.isDigit_of_mem_padDigits 6 us c hc)
  intro c hc
  simp only [isoformat, List.mem_append, List.mem_cons, List.not_mem_nil, or_false] at hc
  rcases hc with h | rfl | h | rfl | h | rfl | h | rfl | h | rfl | h | h | rfl
  all_goals first | exact hpad _ _ c h | exact hfrac _ c h | exact ⟨by decide, by decide⟩

end DateTime
