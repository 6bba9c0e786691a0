/-
  Slas.Lib.RegexLanguage

  The texts that an expression can take.  A boundary and a look ahead or behind take nothing, so
  the language says what a match may take, not that it is taken at every place.

  `pattern_spec`: a match is a text of the language, in front of the rest.  What it cannot begin
  with (`ends_eq_nil_of_first`), or what is not all there (`ends_eq_nil_of_needs`), it does not
  match; `place_of_mem_finditer` and `subFrom_of_match` say where the matches in a text are.
-/

import Mathlib.Computability.Language
import Slas.Lib.Regex

namespace Regex

namespace Re

/-- The texts that it can take. -/
def language : Re → Language Char
  | cls p => ({cs | ∃ c, p c = true ∧ cs = [c]} : Set (List Char))
  | eps => 1
  | seq r s => r.language * s.language
  | alt r s => r.language + s.language
  | star r => KStar.kstar r.language
  | boundary _ => 1
  | notBehind _ => 1
  | notAhead _ => 1

/-- The characters that it can take. -/
def takes : Re → Char → Bool
  | cls p, c => p c
  | eps, _ => false
  | seq r s, c => r.takes c || s.takes c
  | alt r s, c => r.takes c || s.takes c
  | star r, c => r.takes c
  | boundary _, _ => false
  | notBehind _, _ => false
  | notAhead _, _ => false

variable {r : Re} {at_ end_ : Place} {cs : List Char}

theorem mem_language_of_repeated {step : Place → List Place} {l : Language Char}
    (hstep : ∀ at_ end_, end_ ∈ step at_ → ∃ taken ∈ l, at_.rest = taken ++ end_.rest) {n : Nat}
    (h : end_ ∈ repeated step n at_) :
    ∃ taken ∈ KStar.kstar l, at_.rest = taken ++ end_.rest := by
  induction n generalizing at_ with
  | zero =>
    obtain rfl : end_ = at_ := by simpa [repeated] using h
    exact ⟨[], Language.nil_mem_kstar l, rfl⟩
  | succ n ih =>
    rw [repeated, List.mem_append, List.mem_flatMap, List.mem_singleton] at h
    rcases h with ⟨next, hnext, hend⟩ | rfl
    · obtain ⟨first, hfirst, hrest⟩ := hstep at_ next (List.mem_filter.mp hnext).1
      obtain ⟨later, hlater, hnextRest⟩ := ih hend
      obtain ⟨pieces, rfl, hpieces⟩ := Language.mem_kstar.mp hlater
      refine ⟨first ++ pieces.flatten, ?_, by rw [hrest, hnextRest, List.append_assoc]⟩
      refine Language.join_mem_kstar (L := first :: pieces) fun piece hpiece => ?_
      rcases List.mem_cons.mp hpiece with rfl | hpiece
      · exact hfirst
      · exact hpieces piece hpiece
    · exact ⟨[], Language.nil_mem_kstar l, rfl⟩

/-- What is between a place and an end of a match is a text of the language. -/
theorem mem_language_of_ends (h : end_ ∈ r.ends at_) :
    ∃ taken ∈ r.language, at_.rest = taken ++ end_.rest := by
  induction r generalizing at_ end_ with
  | cls p =>
    obtain ⟨prev, rest⟩ := at_
    cases rest with
    | nil => simp [ends] at h
    | cons c cs =>
      rw [ends] at h
      dsimp only at h
      split_ifs at h with hc
      · obtain rfl := List.mem_singleton.mp h
        exact ⟨[c], ⟨c, hc, rfl⟩, rfl⟩
      · simp at h
  | eps =>
    obtain rfl := List.mem_singleton.mp h
    exact ⟨[], rfl, rfl⟩
  | seq r s ihr ihs =>
    obtain ⟨middle, hmiddle, hend⟩ := List.mem_flatMap.mp h
    obtain ⟨first, hfirst, hrest⟩ := ihr hmiddle
    obtain ⟨second, hsecond, hmiddleRest⟩ := ihs hend
    refine ⟨first ++ second, Language.append_mem_mul hfirst hsecond, ?_⟩
    rw [hrest, hmiddleRest, List.append_assoc]
  | alt r s ihr ihs =>
    rcases List.mem_append.mp h with h | h
    · obtain ⟨taken, htaken, hrest⟩ := ihr h
      exact ⟨taken, Or.inl htaken, hrest⟩
    · obtain ⟨taken, htaken, hrest⟩ := ihs h
      exact ⟨taken, Or.inr htaken, hrest⟩
  | star r ih => exact mem_language_of_repeated (fun _ _ => ih) h
  | boundary word =>
    rw [ends] at h
    split_ifs at h
    · obtain rfl := List.mem_singleton.mp h
      exact ⟨[], rfl, rfl⟩
    · simp at h
  | notBehind p =>
    rw [ends] at h
    split_ifs at h
    · simp at h
    · obtain rfl := List.mem_singleton.mp h
      exact ⟨[], rfl, rfl⟩
  | notAhead r =>
    rw [ends] at h
    split_ifs at h
    · obtain rfl := List.mem_singleton.mp h
      exact ⟨[], rfl, rfl⟩
    · simp at h

/-- **A match is a text of the language, in front of the rest.** -/
theorem pattern_spec {prev : Option Char} {group rest : List Char}
    (h : r.pattern prev cs = some (group, rest)) : group ∈ r.language ∧ cs = group ++ rest := by
  obtain ⟨end_, hend, heq⟩ := Option.map_eq_some_iff.mp h
  obtain ⟨rfl, rfl⟩ := Prod.mk.inj heq
  obtain ⟨taken, htaken, hrest⟩ := mem_language_of_ends (List.mem_of_head? hend)
  dsimp only at hrest
  subst hrest
  have htake : (taken ++ end_.rest).take ((taken ++ end_.rest).length - end_.rest.length) =
      taken := by simp
  rw [htake]
  exact ⟨htaken, rfl⟩

/-- What is taken has only characters that can be taken. -/
theorem takes_of_mem (h : cs ∈ r.language) : ∀ c ∈ cs, r.takes c = true := by
  induction r generalizing cs with
  | cls p =>
    obtain ⟨c, hc, rfl⟩ := h
    exact List.forall_mem_singleton.mpr hc
  | seq r s ihr ihs =>
    obtain ⟨first, hfirst, second, hsecond, rfl⟩ := Language.mem_mul.mp h
    intro c hc
    rcases List.mem_append.mp hc with hc | hc
    · rw [takes, ihr hfirst c hc, Bool.true_or]
    · rw [takes, ihs hsecond c hc, Bool.or_true]
  | alt r s ihr ihs =>
    intro c hc
    rcases h with h | h
    · rw [takes, ihr h c hc, Bool.true_or]
    · rw [takes, ihs h c hc, Bool.or_true]
  | star r ih =>
    obtain ⟨pieces, rfl, hpieces⟩ := Language.mem_kstar.mp h
    intro c hc
    obtain ⟨piece, hpiece, hc⟩ := List.mem_flatten.mp hc
    exact ih (hpieces piece hpiece) c hc
  | eps | boundary _ | notBehind _ | notAhead _ =>
    obtain rfl : cs = [] := h
    simp

/-! ## How a text of the language begins -/

/-- Whether it may take nothing. -/
def nullable : Re → Bool
  | cls _ => false
  | eps => true
  | seq r s => r.nullable && s.nullable
  | alt r s => r.nullable || s.nullable
  | star _ => true
  | boundary _ => true
  | notBehind _ => true
  | notAhead _ => true

/-- The characters that what it takes may begin with. -/
def first : Re → Char → Bool
  | cls p, c => p c
  | eps, _ => false
  | seq r s, c => r.first c || (r.nullable && s.first c)
  | alt r s, c => r.first c || s.first c
  | star r, c => r.first c
  | boundary _, _ => false
  | notBehind _, _ => false
  | notAhead _, _ => false

variable {s : Re} {rs : List Re} {middle : Place} {c : Char} {ds rest : List Char}
  {p q : Char → Bool} {prev : Option Char}

theorem nullable_of_nil_mem (h : [] ∈ r.language) : r.nullable = true := by
  induction r with
  | cls p =>
    obtain ⟨c, -, hnil⟩ := h
    cases hnil
  | seq r s ihr ihs =>
    obtain ⟨first, hfirst, second, hsecond, hnil⟩ := Language.mem_mul.mp h
    obtain ⟨rfl, rfl⟩ := List.append_eq_nil_iff.mp hnil
    rw [nullable, ihr hfirst, ihs hsecond, Bool.true_and]
  | alt r s ihr ihs =>
    rcases h with h | h
    · rw [nullable, ihr h, Bool.true_or]
    · rw [nullable, ihs h, Bool.or_true]
  | eps | star _ _ | boundary _ | notBehind _ | notAhead _ _ => rfl

theorem first_of_cons_mem (h : c :: cs ∈ r.language) : r.first c = true := by
  induction r generalizing cs with
  | cls p =>
    obtain ⟨d, hd, heq⟩ := h
    obtain ⟨rfl, -⟩ := List.cons.inj heq
    exact hd
  | seq r s ihr ihs =>
    obtain ⟨before, hbefore, after, hafter, heq⟩ := Language.mem_mul.mp h
    rw [first, Bool.or_eq_true, Bool.and_eq_true]
    cases before with
    | nil =>
      rw [List.nil_append] at heq
      subst heq
      exact Or.inr ⟨nullable_of_nil_mem hbefore, ihs hafter⟩
    | cons d before =>
      obtain ⟨rfl, -⟩ := List.cons.inj heq
      exact Or.inl (ihr hbefore)
  | alt r s ihr ihs =>
    rcases h with h | h
    · rw [first, ihr h, Bool.true_or]
    · rw [first, ihs h, Bool.or_true]
  | star r ih =>
    obtain ⟨pieces, heq, hpieces⟩ := Language.mem_kstar_iff_exists_nonempty.mp h
    cases pieces with
    | nil => cases heq
    | cons piece pieces =>
      obtain ⟨hpiece, hne⟩ := hpieces piece List.mem_cons_self
      obtain ⟨d, piece, rfl⟩ := List.exists_cons_of_ne_nil hne
      obtain ⟨rfl, -⟩ := List.cons.inj heq
      exact ih hpiece
  | eps | boundary _ | notBehind _ | notAhead _ _ => cases h

/-- What it cannot begin with, it does not match. -/
theorem ends_eq_nil_of_first (hr : r.nullable = false) (h : isOf r.first at_.rest.head? = false) :
    r.ends at_ = [] := by
  refine List.eq_nil_iff_forall_not_mem.mpr fun end_ hend => ?_
  obtain ⟨taken, htaken, hrest⟩ := mem_language_of_ends hend
  cases taken with
  | nil =>
    rw [nullable_of_nil_mem htaken] at hr
    cases hr
  | cons c taken =>
    rw [hrest, List.cons_append, List.head?_cons, isOf, first_of_cons_mem htaken] at h
    cases h

/-! ## What a text of the language has in it -/

/-- Whatever it takes, a character of a class is in it. -/
def Needs (p : Char → Bool) (r : Re) : Prop := ∀ cs ∈ r.language, ∃ c ∈ cs, p c = true

theorem Needs.cls (h : ∀ c, q c = true → p c = true) : (cls q).Needs p := by
  rintro - ⟨c, hc, rfl⟩
  exact ⟨c, List.mem_singleton_self c, h c hc⟩

theorem Needs.left (h : r.Needs p) : (seq r s).Needs p := by
  rintro - ⟨before, hbefore, after, -, rfl⟩
  obtain ⟨c, hc, hp⟩ := h before hbefore
  exact ⟨c, List.mem_append_left after hc, hp⟩

theorem Needs.right (h : s.Needs p) : (seq r s).Needs p := by
  rintro - ⟨before, -, after, hafter, rfl⟩
  obtain ⟨c, hc, hp⟩ := h after hafter
  exact ⟨c, List.mem_append_right before hc, hp⟩

theorem Needs.alt (hr : r.Needs p) (hs : s.Needs p) : (alt r s).Needs p := by
  rintro cs (h | h)
  · exact hr cs h
  · exact hs cs h

/-- One of the expressions that follow each other needs it. -/
theorem Needs.all {i : Nat} (hr : rs[i]? = some r) (h : r.Needs p) : (Re.all rs).Needs p := by
  induction rs generalizing i with
  | nil => cases hr
  | cons s rs ih =>
    cases i with
    | zero =>
      cases hr
      exact Needs.left h
    | succ i => exact Needs.right (ih hr)

/-- What needs a character that is not in front of one that it does not take does not match. -/
theorem ends_eq_nil_of_needs (hneeds : r.Needs q) (hcs : ∀ c ∈ cs, q c = false)
    (hstop : r.takes c = false) : r.ends ⟨prev, cs ++ c :: rest⟩ = [] := by
  refine List.eq_nil_iff_forall_not_mem.mpr fun end_ hend => ?_
  obtain ⟨taken, htaken, hrest⟩ := mem_language_of_ends hend
  obtain ⟨d, hd, hq⟩ := hneeds taken htaken
  dsimp only at hrest
  rcases List.append_eq_append_iff.mp hrest with ⟨more, rfl, hmore⟩ | ⟨more, rfl, -⟩
  · cases more with
    | nil =>
      rw [List.append_nil] at hd
      rw [hcs d hd] at hq
      cases hq
    | cons e more =>
      obtain ⟨rfl, -⟩ := List.cons.inj hmore
      have htakes := takes_of_mem htaken c (by simp)
      rw [hstop] at htakes
      cases htakes
  · rw [hcs d (List.mem_append_left more hd)] at hq
    cases hq

/-! ## The preferred end -/

theorem head?_ends_seq (hr : (r.ends at_).head? = some middle)
    (hs : (s.ends middle).head? = some end_) : ((seq r s).ends at_).head? = some end_ := by
  obtain ⟨later, hlater⟩ := List.head?_eq_some_iff.mp hr
  rw [ends, hlater, List.flatMap_cons, List.head?_append, hs, Option.some_or]

theorem head?_ends_opt (h : r.ends at_ = []) : ((opt r).ends at_).head? = some at_ := by
  rw [opt, ends, h]
  rfl

theorem head?_ends_star (h : r.ends at_ = []) : ((star r).ends at_).head? = some at_ := by
  rw [ends]
  cases at_.rest.length with
  | zero => rfl
  | succ n =>
    rw [repeated, h]
    rfl

theorem head?_ends_cls (hc : p c = true) :
    ((cls p).ends ⟨prev, c :: rest⟩).head? = some ⟨some c, rest⟩ := by
  rw [ends]
  dsimp only
  rw [if_pos hc]
  rfl

/-- A repeated class takes all it can first. -/
theorem head?_repeated_cls {p : Char → Bool} (n : Nat) (prev : Option Char) (cs : List Char)
    (hn : cs.length ≤ n) :
    ((repeated (cls p).ends n ⟨prev, cs⟩).head?.map fun end_ => end_.rest) =
      some (cs.dropWhile p) := by
  induction n generalizing prev cs with
  | zero =>
    obtain rfl : cs = [] := List.length_eq_zero_iff.mp (Nat.le_zero.mp hn)
    rfl
  | succ n ih =>
    cases cs with
    | nil => rfl
    | cons c cs =>
      by_cases hc : p c = true
      · have hends : (cls p).ends ⟨prev, c :: cs⟩ = [⟨some c, cs⟩] := by simp [ends, hc]
        have hless : [(⟨some c, cs⟩ : Place)].filter
            (fun next => next.rest.length < (c :: cs).length) = [⟨some c, cs⟩] := by simp
        have h := ih (some c) cs (Nat.le_of_succ_le_succ hn)
        rw [repeated, hends, hless, List.flatMap_singleton, List.dropWhile_cons, if_pos hc]
        cases hrep : repeated (cls p).ends n ⟨some c, cs⟩ with
        | nil => simp [hrep] at h
        | cons first others => rwa [hrep] at h
      · simp [repeated, ends, hc]

/-- As many characters of a class as there are. -/
theorem head?_ends_plus_cls (hne : ds ≠ []) (hds : ∀ d ∈ ds, p d = true)
    (hrest : isOf p rest.head? = false) (prev : Option Char) :
    ∃ last, ((plus (cls p)).ends ⟨prev, ds ++ rest⟩).head? = some ⟨last, rest⟩ := by
  obtain ⟨d, ds, rfl⟩ := List.exists_cons_of_ne_nil hne
  have hall : ((star (cls p)).ends ⟨some d, ds ++ rest⟩).head?.map (fun end_ => end_.rest) =
      some ((ds ++ rest).dropWhile p) :=
    head?_repeated_cls _ (some d) (ds ++ rest) (Nat.le_refl _)
  have hdrop : (ds ++ rest).dropWhile p = rest := by
    rw [List.dropWhile_append_of_pos fun e he => hds e (List.mem_cons_of_mem d he)]
    cases rest with
    | nil => rfl
    | cons e rest => exact List.dropWhile_cons_of_neg (by simpa [isOf] using hrest)
  rw [hdrop] at hall
  obtain ⟨⟨last, rest'⟩, hlast, rfl⟩ := Option.map_eq_some_iff.mp hall
  exact ⟨last, head?_ends_seq (head?_ends_cls (hds d List.mem_cons_self)) hlast⟩

theorem ends_anyOf (rs : List Re) (at_ : Place) :
    (anyOf rs).ends at_ = rs.flatMap fun r => r.ends at_ := by
  induction rs with
  | nil =>
    obtain ⟨prev, rest⟩ := at_
    cases rest <;> rfl
  | cons r rs ih =>
    rw [anyOf, List.foldr_cons, ends, List.flatMap_cons, ← ih]
    rfl

/-- The match of the first expression that has one. -/
theorem head?_ends_anyOf {i : Nat} (hr : rs[i]? = some r)
    (hbefore : ∀ earlier ∈ rs.take i, earlier.ends at_ = [])
    (h : (r.ends at_).head? = some end_) : ((anyOf rs).ends at_).head? = some end_ := by
  obtain ⟨hi, hget⟩ := List.getElem?_eq_some_iff.mp hr
  obtain ⟨later, hlater⟩ := List.head?_eq_some_iff.mp h
  have hsplit : rs = rs.take i ++ r :: rs.drop (i + 1) := by
    rw [← hget, List.getElem_cons_drop, List.take_append_drop]
  have hnone : (rs.take i).flatMap (fun r => r.ends at_) = [] :=
    List.flatMap_eq_nil_iff.mpr hbefore
  rw [ends_anyOf, hsplit, List.flatMap_append, hnone, List.nil_append, List.flatMap_cons, hlater]
  rfl

/-- The match is what is in front of the preferred end. -/
theorem pattern_eq_some {group : List Char} {last : Option Char}
    (h : (r.ends ⟨prev, group ++ rest⟩).head? = some ⟨last, rest⟩) :
    r.pattern prev (group ++ rest) = some (group, rest) := by
  rw [pattern, h, Option.map_some]
  simp

end Re

/-! ## Where the matches are -/

variable {m : Patterns.Pattern} {σ : Type} {f : σ → Match → σ × List Char} {found : Match}
  {cs : List Char}

theorem place_of_mem_findFrom (hm : ∀ prev cs group rest, m prev cs = some (group, rest) →
    cs = group ++ rest) {skip start : Nat} {prev : Option Char}
    (h : found ∈ findFrom m skip start prev cs) :
    ∃ before after, cs = before ++ (found.group ++ after) ∧ found.start = start + before.length := by
  induction cs generalizing skip start prev with
  | nil => cases skip <;> cases h
  | cons c cs ih =>
    have hlater {skip : Nat} (h : found ∈ findFrom m skip (start + 1) (some c) cs) :
        ∃ before after, c :: cs = before ++ (found.group ++ after) ∧
          found.start = start + before.length := by
      obtain ⟨before, after, rfl, hstart⟩ := ih h
      refine ⟨c :: before, after, rfl, ?_⟩
      rw [hstart, List.length_cons]
      omega
    cases skip with
    | succ skip => exact hlater h
    | zero =>
      rw [findFrom] at h
      cases hfound : m prev (c :: cs) with
      | none =>
        rw [hfound] at h
        exact hlater h
      | some pair =>
        obtain ⟨group, rest⟩ := pair
        rw [hfound] at h
        rcases List.mem_cons.mp h with rfl | h
        · exact ⟨[], rest, hm prev (c :: cs) group rest hfound, rfl⟩
        · exact hlater h

/-- A match is at the place where it begins. -/
theorem place_of_mem_finditer (hm : ∀ prev cs group rest, m prev cs = some (group, rest) →
    cs = group ++ rest) (h : found ∈ finditer m cs) :
    ∃ before after, cs = before ++ (found.group ++ after) ∧ found.start = before.length := by
  obtain ⟨before, after, hcs, hstart⟩ := place_of_mem_findFrom hm h
  exact ⟨before, after, hcs, hstart.trans (Nat.zero_add _)⟩

theorem subFrom_skip (start : Nat) (prev : Option Char) (s : σ) (before cs : List Char) :
    ∃ prev', subFrom m f before.length start prev s (before ++ cs) =
      subFrom m f 0 (start + before.length) prev' s cs := by
  induction before generalizing start prev with
  | nil => exact ⟨prev, rfl⟩
  | cons c before ih =>
    obtain ⟨prev', h⟩ := ih (start + 1) (some c)
    refine ⟨prev', ?_⟩
    rw [List.length_cons, List.cons_append, subFrom, h, Nat.add_right_comm, Nat.add_assoc]

/-- A match of at least one character is replaced, and the rest is read after it. -/
theorem subFrom_of_match (start : Nat) (s : σ) {prev : Option Char} {group rest : List Char}
    (hne : group ≠ []) (h : m prev (group ++ rest) = some (group, rest)) :
    ∃ prev', subFrom m f 0 start prev s (group ++ rest) =
      ((subFrom m f 0 (start + group.length) prev' (f s ⟨start, group⟩).1 rest).1,
        (f s ⟨start, group⟩).2 ++
          (subFrom m f 0 (start + group.length) prev' (f s ⟨start, group⟩).1 rest).2) := by
  obtain ⟨c, group, rfl⟩ := List.exists_cons_of_ne_nil hne
  obtain ⟨prev', hskip⟩ := subFrom_skip (m := m) (f := f) (start + 1) (some c)
    (f s ⟨start, c :: group⟩).1 group rest
  have hlength : (group ++ rest).length - rest.length = group.length := by simp
  refine ⟨prev', ?_⟩
  rw [List.cons_append] at h ⊢
  rw [subFrom, h]
  dsimp only
  rw [hlength, hskip, List.length_cons, Nat.add_right_comm, Nat.add_assoc]

theorem subFrom_of_none (start : Nat) (s : σ) {prev : Option Char} {c : Char}
    (h : m prev (c :: cs) = none) : subFrom m f 0 start prev s (c :: cs) =
      ((subFrom m f 0 (start + 1) (some c) s cs).1,
        c :: (subFrom m f 0 (start + 1) (some c) s cs).2) := by
  rw [subFrom, h]

end Regex
