/-
  Slas.Lib.Lines

  Text as a list of characters and the line functions of Python's `str` over
  it: `splitlines` with the line boundaries its documentation lists,
  `isspace`, and the newline translation of a file opened in text mode.
-/

import Mathlib.Data.List.Basic

namespace Lines

/-- The line boundaries of `str.splitlines`, `\r\n` apart. -/
def isLineBreak (c : Char) : Bool :=
  c = '\n' || c = '\r' || c = '\x0b' || c = '\x0c' || c = '\x1c' || c = '\x1d' || c = '\x1e' ||
    c = '\u0085' || c = '\u2028' || c = '\u2029'

/-- `str.splitlines()`: no empty last line after a final boundary. -/
def splitlines : List Char → List (List Char)
  | [] => []
  | '\r' :: '\n' :: cs => [] :: splitlines cs
  | c :: cs =>
    if isLineBreak c then [] :: splitlines cs
    else match splitlines cs with
      | [] => [[c]]
      | l :: ls => (c :: l) :: ls

/-- `str.isspace` of one character. -/
def isSpace (c : Char) : Bool :=
  (0x09 ≤ c.toNat && c.toNat ≤ 0x0d) || (0x1c ≤ c.toNat && c.toNat ≤ 0x20) || c.toNat = 0x85 ||
    c.toNat = 0xa0 || c.toNat = 0x1680 || (0x2000 ≤ c.toNat && c.toNat ≤ 0x200a) ||
    c.toNat = 0x2028 || c.toNat = 0x2029 || c.toNat = 0x202f || c.toNat = 0x205f ||
    c.toNat = 0x3000

/-- `not line.strip()` -/
def isBlank (l : List Char) : Bool := l.all isSpace

/-- Reading in text mode: `\r\n` and `\r` become `\n`. -/
def universalNewlines : List Char → List Char
  | [] => []
  | '\r' :: '\n' :: cs => '\n' :: universalNewlines cs
  | '\r' :: cs => '\n' :: universalNewlines cs
  | c :: cs => c :: universalNewlines cs

example : splitlines "a\r\nb\n\n".toList = ["a".toList, "b".toList, []] := by decide

/-! ## `splitlines` on texts put together from lines -/

variable {l p q r : List Char}

/-- No character of the list is a line boundary. -/
def Unbroken (l : List Char) : Prop := ∀ c ∈ l, isLineBreak c = false

theorem Unbroken.tail {c : Char} (h : Unbroken (c :: l)) : Unbroken l :=
  fun d hd => h d (List.mem_cons_of_mem _ hd)

theorem splitlines_cons {c : Char} (hc : isLineBreak c = false) :
    splitlines (c :: l) = match splitlines l with
      | [] => [[c]]
      | m :: ms => (c :: m) :: ms := by
  rw [splitlines]
  · simp [hc]
  · rintro cs rfl -
    simp [isLineBreak] at hc

/-- An unbroken line up to a boundary is the first line. -/
theorem splitlines_break {c : Char} (hp : Unbroken p) (hc : isLineBreak c = true) :
    ∃ ls, splitlines (p ++ c :: q) = p :: ls := by
  induction p with
  | nil =>
    by_cases hcr : ∃ q', c = '\r' ∧ q = '\n' :: q'
    · obtain ⟨q', rfl, rfl⟩ := hcr
      exact ⟨splitlines q', rfl⟩
    · refine ⟨splitlines q, ?_⟩
      rw [List.nil_append, splitlines]
      · simp [hc]
      · intro q' h1 h2
        exact hcr ⟨q', h1, h2⟩
  | cons d p ih =>
    obtain ⟨ls, hls⟩ := ih hp.tail
    refine ⟨ls, ?_⟩
    rw [List.cons_append, splitlines_cons (hp d (List.mem_cons_self ..)), hls]

theorem splitlines_newline (hl : Unbroken l) : splitlines (l ++ '\n' :: r) = l :: splitlines r := by
  induction l with
  | nil => simp [splitlines, isLineBreak]
  | cons c l ih =>
    rw [List.cons_append, splitlines_cons (hl c (List.mem_cons_self ..)), ih hl.tail]

/-- An unbroken rest of a text is its last line. -/
theorem splitlines_unbroken (hl : Unbroken l) (hne : l ≠ []) : splitlines l = [l] := by
  induction l with
  | nil => exact absurd rfl hne
  | cons c l ih =>
    rw [splitlines_cons (hl c (List.mem_cons_self ..))]
    cases l with
    | nil => rfl
    | cons d l => rw [ih hl.tail (by simp)]

theorem unbroken_or_first_break (l : List Char) :
    Unbroken l ∨ ∃ p c q, l = p ++ c :: q ∧ Unbroken p ∧ isLineBreak c = true := by
  induction l with
  | nil => exact Or.inl (by simp [Unbroken])
  | cons c l ih =>
    by_cases hc : isLineBreak c = true
    · exact Or.inr ⟨[], c, l, rfl, by simp [Unbroken], hc⟩
    · have hc' : isLineBreak c = false := by simpa using hc
      have hcons : ∀ m, Unbroken m → Unbroken (c :: m) := by
        intro m hm d hd
        rcases List.mem_cons.mp hd with rfl | hd
        · exact hc'
        · exact hm d hd
      rcases ih with h | ⟨p, d, q, rfl, hp, hd⟩
      · exact Or.inl (hcons l h)
      · exact Or.inr ⟨c :: p, d, q, rfl, hcons p hp, hd⟩

theorem universalNewlines_of_not_mem (h : '\r' ∉ l) : universalNewlines l = l := by
  induction l with
  | nil => rfl
  | cons c l ih =>
    have hc : c ≠ '\r' := by
      rintro rfl
      exact h (List.mem_cons_self ..)
    rw [universalNewlines, ih (fun hmem => h (List.mem_cons_of_mem _ hmem))]
    · rintro cs rfl
      exact absurd rfl hc
    · rintro rfl
      exact absurd rfl hc

/-- Above U+0020 only three characters are line boundaries. -/
theorem isLineBreak_of_le {c : Char} (hc : 0x20 ≤ c.toNat) :
    isLineBreak c = true ↔ c = '\u0085' ∨ c = '\u2028' ∨ c = '\u2029' := by
  have hne : ∀ d : Char, d.toNat < 0x20 → c ≠ d := by
    rintro d hd rfl
    omega
  have h1 := hne '\n' (by decide)
  have h2 := hne '\r' (by decide)
  have h3 := hne '\x0b' (by decide)
  have h4 := hne '\x0c' (by decide)
  have h5 := hne '\x1c' (by decide)
  have h6 := hne '\x1d' (by decide)
  have h7 := hne '\x1e' (by decide)
  simp [isLineBreak, h1, h2, h3, h4, h5, h6, h7, or_assoc]

theorem splitlines_ne_nil (h : l ≠ []) : splitlines l ≠ [] := by
  rcases unbroken_or_first_break l with hl | ⟨p, c, q, rfl, hp, hc⟩
  · simp [splitlines_unbroken hl h]
  · obtain ⟨ls, hls⟩ := splitlines_break (q := q) hp hc
    simp [hls]

/-- A boundary that is no `\r\n` ends a line. -/
theorem splitlines_boundary {c : Char} (hc : isLineBreak c = true)
    (hcr : ∀ cs, c = '\r' → l = '\n' :: cs → False) : splitlines (c :: l) = [] :: splitlines l := by
  rw [splitlines.eq_3 _ _ hcr, if_pos hc]

/-- A text that ends in `\n` and what follows it have their own lines. -/
theorem splitlines_append_newline (p q : List Char) :
    splitlines (p ++ '\n' :: q) = splitlines (p ++ ['\n']) ++ splitlines q := by
  have hplain : ∀ (c : Char) (p : List Char), isLineBreak c = false →
      splitlines (p ++ '\n' :: q) = splitlines (p ++ ['\n']) ++ splitlines q →
        splitlines (c :: p ++ '\n' :: q) = splitlines (c :: p ++ ['\n']) ++ splitlines q := by
    intro c p hc ih
    rw [List.cons_append, splitlines_cons hc, List.cons_append, splitlines_cons hc, ih]
    cases hlines : splitlines (p ++ ['\n']) with
    | nil => exact absurd hlines (splitlines_ne_nil (by simp))
    | cons l ls => rfl
  induction p using splitlines.induct with
  | case1 => simp [splitlines, isLineBreak]
  | case2 p ih => simp only [List.cons_append, splitlines, ih]
  | case3 c p hcr hc ih =>
    by_cases hr : c = '\r' ∧ p = []
    · obtain ⟨rfl, rfl⟩ := hr
      simp [splitlines]
    · have hnot : ∀ r cs, c = '\r' → p ++ '\n' :: r = '\n' :: cs → False := by
        intro r cs hc hp
        cases p with
        | nil => exact hr ⟨hc, rfl⟩
        | cons d p => exact hcr p hc (by rw [(List.cons.inj hp).1])
      rw [List.cons_append, splitlines_boundary hc (hnot q), List.cons_append,
        splitlines_boundary hc (hnot []), ih, List.cons_append]
  | case4 c p hcr hc _ ih => exact hplain c p (by simpa using hc) ih
  | case5 c p hcr hc _ _ _ ih => exact hplain c p (by simpa using hc) ih

/-- The lines of a text have its characters, and no boundaries. -/
theorem mem_line (l : List Char) :
    ∀ m ∈ splitlines l, Unbroken m ∧ ∀ c ∈ m, c ∈ l := by
  induction l using splitlines.induct with
  | case1 => simp [splitlines]
  | case2 l ih =>
    intro m hm
    rw [splitlines] at hm
    rcases List.mem_cons.mp hm with rfl | hm
    · simp [Unbroken]
    · exact ⟨(ih m hm).1, fun c hc => by simp [(ih m hm).2 c hc]⟩
  | case3 c l hcr hc ih =>
    intro m hm
    rw [splitlines_boundary hc hcr] at hm
    rcases List.mem_cons.mp hm with rfl | hm
    · simp [Unbroken]
    · exact ⟨(ih m hm).1, fun d hd => by simp [(ih m hm).2 d hd]⟩
  | case4 c l hcr hc hnil ih =>
    intro m hm
    have hplain : isLineBreak c = false := by simpa using hc
    rw [splitlines_cons hplain, hnil, List.mem_singleton] at hm
    subst hm
    simp [Unbroken, hplain]
  | case5 c l hcr hc first rest hcons ih =>
    intro m hm
    have hplain : isLineBreak c = false := by simpa using hc
    rw [splitlines_cons hplain, hcons] at hm
    have hfirst := ih first (by simp [hcons])
    rcases List.mem_cons.mp hm with rfl | hm
    · constructor
      · intro d hd
        rcases List.mem_cons.mp hd with rfl | hd
        · exact hplain
        · exact hfirst.1 d hd
      · intro d hd
        rcases List.mem_cons.mp hd with rfl | hd
        · exact List.mem_cons_self
        · exact List.mem_cons_of_mem _ (hfirst.2 d hd)
    · have hrest := ih m (by simp [hcons, hm])
      exact ⟨hrest.1, fun d hd => List.mem_cons_of_mem _ (hrest.2 d hd)⟩

/-- Every boundary is white space. -/
theorem isSpace_of_isLineBreak {c : Char} (h : isLineBreak c = true) : isSpace c = true := by
  simp only [isLineBreak, Bool.or_eq_true, decide_eq_true_eq] at h
  rcases h with (((((((((rfl | rfl) | rfl) | rfl) | rfl) | rfl) | rfl) | rfl) | rfl) | rfl) <;>
    decide

end Lines
