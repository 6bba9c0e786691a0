/-
  Slas.Lib.Placeholders

  Texts with placeholders in them, read from left to right.

  A reader says whether a placeholder begins a text, and what it names; what it
  reads depends on the characters of the placeholder alone.  `scan` cuts a text
  into plain characters and placeholders, none overlapping; `flatten` puts the
  pieces together again.  A text that meets no placeholder is still there when the
  placeholders have been filled (`Apart.infix_fillIn`).

  Substituting twice is substituting once, if scanning the text again finds the
  placeholders that were kept and no others (`subst_fillIn`); the texts that were put
  in may make more.
-/

import Mathlib.Data.List.Basic

namespace Placeholders

variable {α ε : Type}

/-- How a placeholder at the beginning of a text is read: its own text, and what it
    names. -/
structure Reader (α : Type) where
  read : List Char → Option (List Char × α)
  nonempty : ∀ {cs raw a}, read cs = some (raw, a) → raw ≠ []
  starts : ∀ {cs raw a}, read cs = some (raw, a) → raw <+: cs
  decides : ∀ {cs cs' raw a}, read cs = some (raw, a) → raw <+: cs' → read cs' = some (raw, a)

inductive Piece (α : Type) where
  | char (c : Char)
  | ref (raw : List Char) (a : α)
  deriving DecidableEq

def Piece.text : Piece α → List Char
  | .char c => [c]
  | .ref raw _ => raw

/-- The text of pieces. -/
def flatten (ps : List (Piece α)) : List Char := ps.flatMap Piece.text

/-- What the placeholders name. -/
def refs (ps : List (Piece α)) : List α := ps.filterMap fun p =>
  match p with
  | .char _ => none
  | .ref _ a => some a

variable (R : Reader α)

/-- The pieces of a text, after so many of its characters. -/
def scanFrom : Nat → List Char → List (Piece α)
  | _, [] => []
  | k + 1, _ :: cs => scanFrom k cs
  | 0, c :: cs =>
    match R.read (c :: cs) with
    | none => .char c :: scanFrom 0 cs
    | some (raw, a) => .ref raw a :: scanFrom (raw.length - 1) cs

/-- The pieces of a text. -/
def scan (cs : List Char) : List (Piece α) := scanFrom R 0 cs

@[simp] theorem flatten_nil : flatten ([] : List (Piece α)) = [] := rfl

@[simp] theorem flatten_cons (p : Piece α) (ps : List (Piece α)) :
    flatten (p :: ps) = p.text ++ flatten ps := rfl

@[simp] theorem flatten_append (ps qs : List (Piece α)) :
    flatten (ps ++ qs) = flatten ps ++ flatten qs := by
  simp [flatten]

@[simp] theorem refs_append (ps qs : List (Piece α)) : refs (ps ++ qs) = refs ps ++ refs qs := by
  simp [refs]

/-- Plain characters. -/
def plain (cs : List Char) : List (Piece α) := cs.map .char

@[simp] theorem flatten_plain (cs : List Char) : flatten (plain cs : List (Piece α)) = cs := by
  simp [flatten, plain, List.flatMap_map, Piece.text]

@[simp] theorem refs_plain (cs : List Char) : refs (plain cs : List (Piece α)) = [] := by
  simp [refs, plain, List.filterMap_map]

/-- The text with something in the place of each placeholder, from left to right. -/
def subst (f : List Char → α → Except ε (List Char)) : List (Piece α) → Except ε (List Char)
  | [] => .ok []
  | .char c :: ps => (subst f ps).map (c :: ·)
  | .ref raw a :: ps =>
    match f raw a with
    | .error e => .error e
    | .ok cs => (subst f ps).map (cs ++ ·)

/-- The pieces with plain text in the place of the placeholders that are known. -/
def fillIn (g : α → Option (List Char)) : List (Piece α) → List (Piece α)
  | [] => []
  | .char c :: ps => .char c :: fillIn g ps
  | .ref raw a :: ps =>
    match g a with
    | some cs => plain cs ++ fillIn g ps
    | none => .ref raw a :: fillIn g ps

/-! ## Substitution -/

section Substitution

variable {f f' : List Char → α → Except ε (List Char)}

theorem subst_append (ps qs : List (Piece α)) :
    subst f (ps ++ qs) =
      match subst f ps with
      | .error e => .error e
      | .ok cs => (subst f qs).map (cs ++ ·) := by
  induction ps with
  | nil => cases hq : subst f qs <;> simp [subst, hq, Except.map]
  | cons p ps ih =>
    cases p with
    | char c =>
      simp only [List.cons_append, subst, ih]
      cases subst f ps with
      | error e => rfl
      | ok cs => cases subst f qs <;> rfl
    | ref raw a =>
      simp only [List.cons_append, subst, ih]
      cases f raw a with
      | error e => rfl
      | ok filled =>
        cases subst f ps with
        | error e => rfl
        | ok cs => cases subst f qs <;> simp [Except.map]

@[simp] theorem subst_plain (cs : List Char) : subst f (plain cs) = .ok cs := by
  induction cs with
  | nil => rfl
  | cons c cs ih =>
    rw [plain, List.map_cons, subst]
    rw [plain] at ih
    rw [ih]
    rfl

theorem subst_congr {ps : List (Piece α)} (h : ∀ raw a, .ref raw a ∈ ps → f raw a = f' raw a) :
    subst f ps = subst f' ps := by
  induction ps with
  | nil => rfl
  | cons p ps ih =>
    have hrest := ih fun raw a hin => h raw a (List.mem_cons_of_mem p hin)
    cases p with
    | char c => simp only [subst, hrest]
    | ref raw a => simp only [subst, hrest, h raw a List.mem_cons_self]

/-- A substitution goes through when every placeholder can be filled. -/
theorem subst_ok_iff {ps : List (Piece α)} :
    (∃ cs, subst f ps = .ok cs) ↔ ∀ raw a, .ref raw a ∈ ps → ∃ cs, f raw a = .ok cs := by
  induction ps with
  | nil => simp [subst]
  | cons p ps ih =>
    cases p with
    | char c =>
      have hmem : ∀ raw a, Piece.ref raw a ∈ Piece.char c :: ps ↔ Piece.ref raw a ∈ ps := by simp
      simp only [hmem, ← ih]
      constructor
      · rintro ⟨cs, h⟩
        cases hs : subst f ps with
        | error e => simp [subst, hs, Except.map] at h
        | ok rest => exact ⟨rest, rfl⟩
      · rintro ⟨rest, h⟩
        exact ⟨c :: rest, by simp [subst, h, Except.map]⟩
    | ref raw a =>
      constructor
      · rintro ⟨cs, h⟩ raw' a' hin
        simp only [subst] at h
        split at h
        · cases h
        · rename_i filled hf
          rcases List.mem_cons.mp hin with heq | hin
          · cases heq
            exact ⟨filled, hf⟩
          · refine ih.mp ?_ raw' a' hin
            cases hs : subst f ps with
            | error e => simp [hs, Except.map] at h
            | ok rest => exact ⟨rest, rfl⟩
      · intro h
        obtain ⟨filled, hf⟩ := h raw a List.mem_cons_self
        obtain ⟨rest, hrest⟩ := ih.mpr fun raw' a' hin => h raw' a' (List.mem_cons_of_mem _ hin)
        exact ⟨filled ++ rest, by simp [subst, hf, hrest, Except.map]⟩

/-- What is known is put in, the rest is kept. -/
theorem subst_eq_flatten {g : α → Option (List Char)} {ps : List (Piece α)}
    (h : ∀ raw a, .ref raw a ∈ ps → f raw a = .ok ((g a).getD raw)) :
    subst f ps = .ok (flatten (fillIn g ps)) := by
  induction ps with
  | nil => rfl
  | cons p ps ih =>
    have hrest := ih fun raw a hin => h raw a (List.mem_cons_of_mem p hin)
    cases p with
    | char c => simp [subst, fillIn, hrest, Except.map, Piece.text]
    | ref raw a =>
      have hhead := h raw a List.mem_cons_self
      cases hg : g a with
      | none => simp [subst, fillIn, hhead, hrest, hg, Except.map, Piece.text]
      | some cs => simp [subst, fillIn, hhead, hrest, hg, Except.map]

/-- Where nothing is known, all is kept. -/
theorem fillIn_none (ps : List (Piece α)) : fillIn (fun _ => none) ps = ps := by
  induction ps with
  | nil => rfl
  | cons p ps ih => cases p <;> simp only [fillIn, ih]

theorem fillIn_congr {g g' : α → Option (List Char)} {ps : List (Piece α)}
    (h : ∀ raw a, .ref raw a ∈ ps → g a = g' a) : fillIn g ps = fillIn g' ps := by
  induction ps with
  | nil => rfl
  | cons p ps ih =>
    have hrest := ih fun raw a hin => h raw a (List.mem_cons_of_mem p hin)
    cases p with
    | char c => simp only [fillIn, hrest]
    | ref raw a => simp only [fillIn, hrest, h raw a List.mem_cons_self]

/-- Substituting for what was kept is substituting at once. -/
theorem subst_fillIn (g : α → Option (List Char)) (ps : List (Piece α)) :
    subst f (fillIn g ps) =
      subst (fun raw a => match g a with | some cs => .ok cs | none => f raw a) ps := by
  induction ps with
  | nil => rfl
  | cons p ps ih =>
    cases p with
    | char c => simp only [fillIn, subst, ih]
    | ref raw a =>
      cases hg : g a with
      | none => simp only [fillIn, hg, subst, ih]
      | some cs => simp only [fillIn, hg, subst, subst_append, subst_plain, ih]

end Substitution

/-! ## Scanning -/

variable {R}

theorem scanFrom_eq_scan_drop (k : Nat) (cs : List Char) :
    scanFrom R k cs = scan R (cs.drop k) := by
  induction cs generalizing k with
  | nil => cases k <;> rfl
  | cons c cs ih =>
    cases k with
    | zero => rfl
    | succ k => exact ih k

@[simp] theorem scan_nil : scan R [] = [] := rfl

/-- No placeholder begins here. -/
theorem scan_char {c : Char} {cs : List Char} (h : R.read (c :: cs) = none) :
    scan R (c :: cs) = .char c :: scan R cs := by
  simp only [scan, scanFrom, h]

/-- A placeholder does. -/
theorem scan_ref {raw rest : List Char} {a : α} (h : R.read (raw ++ rest) = some (raw, a)) :
    scan R (raw ++ rest) = .ref raw a :: scan R rest := by
  obtain ⟨c, cs, rfl⟩ := List.exists_cons_of_ne_nil (R.nonempty h)
  simp only [List.cons_append] at h ⊢
  rw [scan, scanFrom, h]
  simp only [List.length_cons, Nat.add_sub_cancel]
  rw [scanFrom_eq_scan_drop, List.drop_left]

/-- Every text is of one of the three forms. -/
theorem scan_cases (cs : List Char) :
    cs = [] ∨ (∃ c cs', cs = c :: cs' ∧ R.read cs = none) ∨
      ∃ raw a rest, cs = raw ++ rest ∧ R.read cs = some (raw, a) := by
  cases cs with
  | nil => exact Or.inl rfl
  | cons c cs' =>
    cases h : R.read (c :: cs') with
    | none => exact Or.inr (Or.inl ⟨c, cs', rfl, rfl⟩)
    | some found =>
      obtain ⟨raw, a⟩ := found
      obtain ⟨rest, hrest⟩ := R.starts h
      exact Or.inr (Or.inr ⟨raw, a, rest, hrest.symm, rfl⟩)

/-- The induction along a scan. -/
theorem scan_induction {motive : List Char → Prop} (nil : motive [])
    (char : ∀ c cs, R.read (c :: cs) = none → motive cs → motive (c :: cs))
    (ref : ∀ raw a rest, R.read (raw ++ rest) = some (raw, a) → motive rest → motive (raw ++ rest))
    (cs : List Char) : motive cs := by
  induction hn : cs.length using Nat.strongRecOn generalizing cs with
  | ind n ih =>
    subst hn
    rcases scan_cases (R := R) cs with rfl | ⟨c, cs', rfl, h⟩ | ⟨raw, a, rest, rfl, h⟩
    · exact nil
    · exact char c cs' h (ih _ (by simp) cs' rfl)
    · have hpos := List.length_pos_of_ne_nil (R.nonempty h)
      exact ref raw a rest h (ih _ (by simp; omega) rest rfl)

/-- Scanning loses nothing. -/
@[simp] theorem flatten_scan (cs : List Char) : flatten (scan R cs) = cs := by
  induction cs using scan_induction (R := R) with
  | nil => rfl
  | char c cs h ih => simp [scan_char h, Piece.text, ih]
  | ref raw a rest h ih => simp [scan_ref h, Piece.text, ih]

/-- Characters at which no placeholder begins are read as they stand. -/
theorem scan_plain_append {cs : List Char} (h : ∀ c ∈ cs, ∀ ds, R.read (c :: ds) = none)
    (ds : List Char) : scan R (cs ++ ds) = plain cs ++ scan R ds := by
  induction cs with
  | nil => rfl
  | cons c cs ih =>
    rw [List.cons_append, scan_char (h c List.mem_cons_self _),
      ih fun d hd => h d (List.mem_cons_of_mem c hd)]
    rfl

/-- A text that meets no placeholder: none begins in it, none ends in it, and it is in
    none. -/
structure Apart (R : Reader α) (needle : List Char) : Prop where
  begins : ∀ c ∈ needle, ∀ ds, R.read (c :: ds) = none
  ends : ∀ {cs u v a}, R.read cs = some (u ++ v, a) → v ≠ [] → ¬ v <+: needle
  inside : ∀ {cs raw a}, R.read cs = some (raw, a) → ¬ needle <:+: raw

@[simp] theorem fillIn_append (g : α → Option (List Char)) (ps qs : List (Piece α)) :
    fillIn g (ps ++ qs) = fillIn g ps ++ fillIn g qs := by
  induction ps with
  | nil => rfl
  | cons p ps ih =>
    cases p with
    | char c => simp only [List.cons_append, fillIn, ih]
    | ref raw a =>
      cases hg : g a with
      | none => simp only [List.cons_append, fillIn, hg, ih]
      | some cs => simp only [List.cons_append, fillIn, hg, ih, List.append_assoc]

@[simp] theorem fillIn_plain (g : α → Option (List Char)) (cs : List Char) :
    fillIn g (plain cs) = plain cs := by
  induction cs with
  | nil => rfl
  | cons c cs ih =>
    have hplain : (plain (c :: cs) : List (Piece α)) = .char c :: plain cs := rfl
    rw [hplain, fillIn, ih]

/-- What meets no placeholder stays, whatever is put in their places. -/
theorem Apart.infix_fillIn {needle : List Char} (h : Apart R needle)
    (g : α → Option (List Char)) {cs : List Char} (hin : needle <:+: cs) :
    needle <:+: flatten (fillIn g (scan R cs)) := by
  have hhere : ∀ post, needle <:+: flatten (fillIn g (scan R (needle ++ post))) := by
    intro post
    rw [scan_plain_append h.begins, fillIn_append, fillIn_plain, flatten_append, flatten_plain]
    exact (List.prefix_append needle _).isInfix
  induction cs using scan_induction (R := R) with
  | nil => exact hin
  | char c cs hread ih =>
    obtain ⟨pre, post, heq⟩ := hin
    cases pre with
    | nil =>
      rw [← heq]
      exact hhere post
    | cons d pre =>
      obtain ⟨-, htail⟩ := List.cons.inj heq
      have hrest := ih ⟨pre, post, htail⟩
      rw [scan_char hread, fillIn, flatten_cons]
      exact hrest.trans (List.suffix_append _ _).isInfix
  | ref raw a rest hread ih =>
    have hlater : needle <:+: rest → needle <:+: flatten (fillIn g (scan R (raw ++ rest))) := by
      intro hrest
      have hsplit : fillIn g (.ref raw a :: scan R rest) =
          fillIn g [.ref raw a] ++ fillIn g (scan R rest) := fillIn_append g [.ref raw a] _
      rw [scan_ref hread, hsplit, flatten_append]
      exact (ih hrest).trans (List.suffix_append _ _).isInfix
    obtain ⟨pre, post, heq⟩ := hin
    rw [List.append_assoc] at heq
    -- the placeholder ends before the text begins, or the two would meet
    rcases List.append_eq_append_iff.mp heq with ⟨u, hraw, hpost⟩ | ⟨u, -, hrest⟩
    · cases u with
      | nil => exact hlater ⟨[], post, by simpa using hpost⟩
      | cons d u =>
        exfalso
        rw [hraw] at hread
        rcases List.append_eq_append_iff.mp hpost with ⟨v, hu, -⟩ | ⟨v, hneedle, -⟩
        · exact h.inside hread ⟨pre, v, by simp [hu]⟩
        · exact h.ends hread (List.cons_ne_nil d u) ⟨v, hneedle.symm⟩
    · exact hlater ⟨u, post, by simp [hrest]⟩

end Placeholders
