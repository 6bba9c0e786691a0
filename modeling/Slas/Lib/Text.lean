/-
  Slas.Lib.Text

  Methods of Python's `str` over lists of characters: `strip`, `split` at white
  space, `partition`, and the parts of a POSIX path as `pathlib` has them.  The lower
  case of single characters: only the 26 capital letters of ASCII have another one.
-/

import Mathlib.Data.List.DropRight
import Slas.Lib.Lines

namespace Text

open Lines (isSpace)

/-- `str.strip` of the characters of a class. -/
def stripBy (p : Char → Bool) (cs : List Char) : List Char := (cs.dropWhile p).rdropWhile p

/-- `str.strip` -/
def strip (cs : List Char) : List Char := stripBy isSpace cs

/-- `str.split` at runs of white space. -/
def words (cs : List Char) : List (List Char) := (cs.splitOnP isSpace).filter (· ≠ [])

/-- `str.partition` at one character, without the separator. -/
def partition (sep : Char) (cs : List Char) : List Char × List Char :=
  (cs.takeWhile (· ≠ sep), (cs.dropWhile (· ≠ sep)).tail)

/-- The format `,` of an integer: the digits in threes, from the right. -/
def thousands (n : Int) : String :=
  let digits := (toString n.natAbs).toList
  let lead := digits.length % 3
  let groups := (digits.drop lead).toChunks 3
  (if n < 0 then "-" else "") ++
    ",".intercalate (((if lead = 0 then [] else [digits.take lead]) ++ groups).map String.ofList)

/-! ## Paths -/

/-- The names of a path, as `PurePosixPath` has them: without its root, without empty
    names and single dots. -/
def names (path : String) : List String :=
  ((path.toList.splitOn '/').map String.ofList).filter fun name => name ≠ "" ∧ name ≠ "."

/-- The root of a path: two slashes are another root than one. -/
def root (path : String) : List String :=
  match path.toList with
  | '/' :: '/' :: '/' :: _ => ["/"]
  | '/' :: '/' :: _ => ["//"]
  | '/' :: _ => ["/"]
  | _ => []

/-- `PurePosixPath.parts` -/
def parts (path : String) : List String := root path ++ names path

/-- `PurePosixPath.name` -/
def name (path : String) : String := (names path).getLastD ""

example : parts "/a//b/./c" = ["/", "a", "b", "c"] := by decide

/-- `PurePosixPath.stem`: the name without its last suffix. -/
def stem (path : String) : String :=
  let cs := (name path).toList
  let suffix := cs.reverse.takeWhile (· ≠ '.')
  let start := (cs.reverse.dropWhile (· ≠ '.')).tail.reverse
  if suffix = [] ∨ start = [] then name path else String.ofList start

example : stem "suites/boot-test.md" = "boot-test" := by decide

/-! ## Cutting at a mark -/

/-- The last mark of a text cuts it in one way. -/
theorem cut_at_last {mark : Char} {a b s s' : List Char} (hs : mark ∉ s) (hs' : mark ∉ s')
    (h : a ++ mark :: s = b ++ mark :: s') : a = b ∧ s = s' := by
  rcases List.append_eq_append_iff.mp h with ⟨c, rfl, hc⟩ | ⟨c, rfl, hc⟩
  · cases c with
    | nil => exact ⟨(List.append_nil a).symm, (List.cons.inj hc).2⟩
    | cons x c =>
      obtain ⟨-, rfl⟩ := List.cons.inj hc
      exact absurd (by simp) hs
  · cases c with
    | nil => exact ⟨List.append_nil b, (List.cons.inj hc).2.symm⟩
    | cons x c =>
      obtain ⟨-, rfl⟩ := List.cons.inj hc
      exact absurd (by simp) hs'

theorem mark_not_mem_toString {mark : Char} (h : mark.isDigit = false) (n : Nat) :
    mark ∉ (toString n).toList := by
  intro hmem
  rw [show (toString n).toList = Nat.toDigits 10 n from Nat.toList_repr] at hmem
  exact absurd (Nat.isDigit_of_mem_toDigits (by decide) (by decide) hmem) (by simp [h])

/-! ## `strip` -/

section Strip

variable {p : Char → Bool} {cs : List Char} {c : Char}

/-- The text neither begins nor ends with a character of the class. -/
def Trimmed (p : Char → Bool) (cs : List Char) : Prop :=
  (∀ c ∈ cs.head?, p c = false) ∧ ∀ c ∈ cs.getLast?, p c = false

theorem stripBy_of_trimmed (h : Trimmed p cs) : stripBy p cs = cs := by
  have hdrop : cs.dropWhile p = cs := by
    cases cs with
    | nil => rfl
    | cons c cs => rw [List.dropWhile_cons, if_neg (by simp [h.1 c rfl])]
  rw [stripBy, hdrop, List.rdropWhile_eq_self_iff]
  intro hne
  simp [h.2 _ (List.getLast?_eq_some_getLast hne)]

theorem trimmed_stripBy (p : Char → Bool) (cs : List Char) : Trimmed p (stripBy p cs) := by
  constructor
  · intro c hc
    obtain ⟨rest, hrest⟩ := List.rdropWhile_prefix p (cs.dropWhile p)
    cases hstrip : (cs.dropWhile p).rdropWhile p with
    | nil => simp [stripBy, hstrip] at hc
    | cons d ds =>
      simp only [stripBy, hstrip, List.head?_cons, Option.mem_def, Option.some.injEq] at hc
      subst hc
      rw [hstrip, List.cons_append] at hrest
      have hhead := List.head?_dropWhile_not p cs
      rw [← hrest] at hhead
      simpa using hhead
  · intro c hc
    have hne : (cs.dropWhile p).rdropWhile p ≠ [] := by
      intro hnil
      simp [stripBy, hnil] at hc
    have hlast := List.rdropWhile_last_not p (cs.dropWhile p) hne
    rw [Option.mem_def, stripBy, List.getLast?_eq_some_getLast hne, Option.some.injEq] at hc
    simpa [hc] using hlast

@[simp] theorem stripBy_stripBy : stripBy p (stripBy p cs) = stripBy p cs :=
  stripBy_of_trimmed (trimmed_stripBy p cs)

theorem stripBy_cons (h : p c = true) : stripBy p (c :: cs) = stripBy p cs := by
  rw [stripBy, List.dropWhile_cons, if_pos h, stripBy]

theorem stripBy_concat (h : p c = true) : stripBy p (cs ++ [c]) = stripBy p cs := by
  rw [stripBy, stripBy, List.dropWhile_append]
  split_ifs with hempty
  · have hall : cs.dropWhile p = [] := List.isEmpty_iff.mp hempty
    rw [List.dropWhile_cons, if_pos h, hall]
    rfl
  · rw [List.rdropWhile_concat, if_pos h]

theorem mem_of_mem_stripBy (h : c ∈ stripBy p cs) : c ∈ cs :=
  (List.dropWhile_sublist p).subset ((List.rdropWhile_prefix p _).subset h)

theorem stripBy_eq_nil_iff : stripBy p cs = [] ↔ ∀ c ∈ cs, p c = true := by
  rw [stripBy, List.rdropWhile_eq_nil_iff]
  constructor
  · intro h c hc
    rw [← List.takeWhile_append_dropWhile (p := p) (l := cs)] at hc
    rcases List.mem_append.mp hc with hc | hc
    · exact List.mem_takeWhile_imp hc
    · exact h c hc
  · exact fun h c hc => h c ((List.dropWhile_sublist p).subset hc)

theorem trimmed_of_forall (h : ∀ c ∈ cs, p c = false) : Trimmed p cs :=
  ⟨fun _ hc => h _ (List.mem_of_head? hc), fun _ hc => h _ (List.mem_of_getLast? hc)⟩

end Strip

/-! ## `split` and `partition` -/

section Split

variable {p : Char → Bool} {cs ds piece : List Char} {c sep : Char}

/-- The pieces have the characters of the text but the separators. -/
theorem mem_splitOnP (h : piece ∈ cs.splitOnP p) : ∀ c ∈ piece, c ∈ cs ∧ p c = false := by
  induction cs generalizing piece with
  | nil =>
    rw [List.splitOnP_nil, List.mem_singleton] at h
    simp [h]
  | cons d cs ih =>
    have hlater : piece ∈ cs.splitOnP p → ∀ c ∈ piece, c ∈ d :: cs ∧ p c = false :=
      fun hin c hc => ⟨List.mem_cons_of_mem _ (ih hin c hc).1, (ih hin c hc).2⟩
    rw [List.splitOnP_cons_eq_if_modifyHead] at h
    split_ifs at h with hd
    · rcases List.mem_cons.mp h with rfl | h
      · simp
      · exact hlater h
    · cases hsplit : cs.splitOnP p with
      | nil => exact absurd hsplit (List.splitOnP_ne_nil p cs)
      | cons first rest =>
        rw [hsplit, List.modifyHead_cons] at h
        rcases List.mem_cons.mp h with rfl | h
        · intro c hc
          rcases List.mem_cons.mp hc with rfl | hc
          · exact ⟨List.mem_cons_self, by simpa using hd⟩
          · have hfirst := ih (by rw [hsplit]; exact List.mem_cons_self) c hc
            exact ⟨List.mem_cons_of_mem _ hfirst.1, hfirst.2⟩
        · exact hlater (by rw [hsplit]; exact List.mem_cons_of_mem _ h)

theorem mem_splitOn (h : piece ∈ cs.splitOn sep) : ∀ c ∈ piece, c ∈ cs ∧ c ≠ sep := by
  rw [List.splitOn_eq_splitOnP] at h
  exact fun c hc => ⟨(mem_splitOnP h c hc).1, by simpa using (mem_splitOnP h c hc).2⟩

theorem splitOnP_cons_of_not (h : p c = false) :
    (c :: cs).splitOnP p = (cs.splitOnP p).modifyHead (c :: ·) := by
  rw [List.splitOnP_cons_eq_if_modifyHead, if_neg (by simp [h])]

theorem mem_partition_fst (h : c ∈ (partition sep cs).1) : c ∈ cs ∧ c ≠ sep := by
  have hsub := (List.takeWhile_sublist (p := fun d => decide (d ≠ sep))).subset h
  exact ⟨hsub, by simpa using List.mem_takeWhile_imp h⟩

theorem mem_partition_snd (h : c ∈ (partition sep cs).2) : c ∈ cs :=
  (List.dropWhile_sublist _).subset (List.mem_of_mem_tail h)

theorem partition_append (h : sep ∉ ds) : partition sep (ds ++ sep :: cs) = (ds, cs) := by
  have hall : ∀ d ∈ ds, decide (d ≠ sep) = true := fun d hd =>
    decide_eq_true fun heq => h (heq ▸ hd)
  rw [partition, List.takeWhile_append_of_pos hall, List.dropWhile_append_of_pos hall]
  simp

/-- Blanks around a text are gone once its pieces are stripped. -/
theorem strip_splitOn_padded (hsep : sep ≠ ' ') (cs : List Char) :
    ((' ' :: cs ++ [' ']).splitOn sep).map strip = (cs.splitOn sep).map strip := by
  have hblank : isSpace ' ' = true := by decide
  -- the last piece is followed by the last blank
  have hlast : ∃ init last, cs.splitOn sep = init ++ [last] ∧
      (cs ++ [' ']).splitOn sep = init ++ [last ++ [' ']] := by
    induction cs with
    | nil => exact ⟨[], [], rfl, by simp [List.splitOn_cons_eq_if_modifyHead, hsep.symm]⟩
    | cons c cs ih =>
      obtain ⟨init, last, hinit, hinit'⟩ := ih
      rw [List.cons_append, List.splitOn_cons_eq_if_modifyHead,
        List.splitOn_cons_eq_if_modifyHead, hinit, hinit']
      split_ifs
      · exact ⟨[] :: init, last, rfl, rfl⟩
      · cases init with
        | nil => exact ⟨[], c :: last, rfl, rfl⟩
        | cons first init => exact ⟨(c :: first) :: init, last, rfl, rfl⟩
  obtain ⟨init, last, hinit, hinit'⟩ := hlast
  have hhead : (' ' :: cs ++ [' ']).splitOn sep =
      ((cs ++ [' ']).splitOn sep).modifyHead (' ' :: ·) := by
    rw [List.cons_append, List.splitOn_cons_eq_if_modifyHead, if_neg (by simpa using hsep.symm)]
  rw [hhead, hinit', hinit]
  cases init with
  | nil => simp [strip, stripBy_cons hblank, stripBy_concat hblank]
  | cons first init => simp [strip, stripBy_cons hblank, stripBy_concat hblank]

end Split

/-! ## `join` -/

section Join

variable {sep cs l : List Char} {ls : List (List Char)} {c : Char}

theorem intercalate_cons_cons (sep cs l : List Char) (ls : List (List Char)) :
    sep.intercalate (cs :: l :: ls) = cs ++ sep ++ sep.intercalate (l :: ls) := by
  simp [List.intercalate]

theorem mem_intercalate (h : c ∈ sep.intercalate ls) : c ∈ sep ∨ ∃ l ∈ ls, c ∈ l := by
  induction ls with
  | nil => simp [List.intercalate] at h
  | cons l ls ih =>
    cases ls with
    | nil => exact Or.inr ⟨l, List.mem_cons_self, by simpa [List.intercalate] using h⟩
    | cons d ds =>
      rw [intercalate_cons_cons] at h
      rcases List.mem_append.mp h with h | h
      · rcases List.mem_append.mp h with h | h
        · exact Or.inr ⟨l, List.mem_cons_self, h⟩
        · exact Or.inl h
      · exact (ih h).imp id fun ⟨l', hl', hc⟩ => ⟨l', List.mem_cons_of_mem _ hl', hc⟩

/-- Words between blanks are split again. -/
theorem words_intercalate {ws : List (List Char)}
    (h : ∀ word ∈ ws, word ≠ [] ∧ ∀ c ∈ word, isSpace c = false) :
    words ([' '].intercalate ws) = ws := by
  induction ws with
  | nil => rfl
  | cons word ws ih =>
    obtain ⟨hne, hword⟩ := h word List.mem_cons_self
    have hone : word.splitOnP isSpace = [word] :=
      List.splitOnP_eq_singleton fun c hc => by simpa using hword c hc
    have hrest := ih fun w hw => h w (List.mem_cons_of_mem _ hw)
    cases ws with
    | nil =>
      have hjoin : [' '].intercalate [word] = word := by simp [List.intercalate]
      rw [hjoin, words, hone, List.filter_cons_of_pos (by simpa using hne), List.filter_nil]
    | cons next ws =>
      rw [intercalate_cons_cons, List.append_assoc, List.singleton_append, words,
        List.splitOnP_append_cons _ _ (by decide), hone, List.singleton_append,
        List.filter_cons_of_pos (by simpa using hne), ← words, hrest]

theorem trimmed_intercalate {p : Char → Bool} (h : ∀ l ∈ ls, l ≠ [] ∧ Trimmed p l) :
    Trimmed p (sep.intercalate ls) ∧ (ls ≠ [] → sep.intercalate ls ≠ []) := by
  induction ls with
  | nil => exact ⟨trimmed_of_forall (by simp [List.intercalate]), fun hne => absurd rfl hne⟩
  | cons l ls ih =>
    obtain ⟨hl, htrimmed⟩ := h l List.mem_cons_self
    obtain ⟨hrest, hne⟩ := ih fun m hm => h m (List.mem_cons_of_mem _ hm)
    cases ls with
    | nil => simpa [List.intercalate, hl] using htrimmed
    | cons d ds =>
      rw [intercalate_cons_cons]
      refine ⟨⟨fun c hc => ?_, fun c hc => ?_⟩, fun _ => by simp [hl]⟩
      · rw [List.append_assoc, List.head?_append_of_ne_nil _ hl] at hc
        exact htrimmed.1 c hc
      · rw [List.getLast?_append_of_ne_nil _ (hne (by simp))] at hc
        exact hrest.2 c hc

/-- Lines that are joined and ended by one more separator each end in one. -/
theorem intercalate_append (h : ls ≠ []) : sep.intercalate ls ++ sep = ls.flatMap (· ++ sep) := by
  induction ls with
  | nil => exact absurd rfl h
  | cons l ls ih =>
    cases ls with
    | nil => simp [List.intercalate]
    | cons d ds =>
      rw [intercalate_cons_cons, List.append_assoc, ih (by simp)]
      rfl

/-- Lines without boundaries are the lines of their text. -/
theorem splitlines_flatMap (h : ∀ l ∈ ls, Lines.Unbroken l) :
    Lines.splitlines (ls.flatMap (· ++ ['\n'])) = ls := by
  induction ls with
  | nil => rfl
  | cons l ls ih =>
    rw [List.flatMap_cons, List.append_assoc, List.singleton_append,
      Lines.splitlines_newline (h l List.mem_cons_self),
      ih fun m hm => h m (List.mem_cons_of_mem _ hm)]

end Join

end Text

namespace AsciiCase

variable {c : Char}

/-- A property of the capital letters holds of each of them. -/
theorem of_upper {P : Char → Prop} (hall : ∀ n < 91, 65 ≤ n → P (Char.ofNat n))
    (hupper : c.val ≥ 'A'.val ∧ c.val ≤ 'Z'.val) : P c := by
  have hlow : 65 ≤ c.toNat := UInt32.le_iff_toNat_le.mp hupper.1
  have hhigh : c.toNat ≤ 90 := UInt32.le_iff_toNat_le.mp hupper.2
  rw [← Char.ofNat_toNat c]
  exact hall c.toNat (by omega) hlow

theorem toLower_toLower (c : Char) : c.toLower.toLower = c.toLower := by
  by_cases hupper : c.val ≥ 'A'.val ∧ c.val ≤ 'Z'.val
  · exact of_upper (P := fun c => c.toLower.toLower = c.toLower) (by decide +kernel) hupper
  · have hsame : c.toLower = c := dif_neg hupper
    rw [hsame, hsame]

/-- A character is its own lower case, or both are letters. -/
theorem toLower_eq_or (c : Char) :
    c.toLower = c ∨ (c.isAlpha = true ∧ c.toLower.isAlpha = true) := by
  by_cases hupper : c.val ≥ 'A'.val ∧ c.val ≤ 'Z'.val
  · exact Or.inr (of_upper (P := fun c => c.isAlpha = true ∧ c.toLower.isAlpha = true)
      (by decide +kernel) hupper)
  · exact Or.inl (dif_neg hupper)

end AsciiCase
