/-
  Slas.Lib.Separators

  Replacement in a text with separators: an expression that can neither match a separator nor
  tell it from the edge of the text is replaced in each part for itself (`sub_append`).

  What an expression does at a place carries over along a map of places that its pieces respect
  (`ends_map`); a text that goes on behind a separator, and one that begins after it, are two
  such maps.
-/

import Slas.Lib.RegexLanguage

namespace Regex

namespace Re

/-! ## Maps of places -/

/-- The classes, the boundaries and the looks behind of an expression do not see the map. -/
def Respects (φ : Place → Place) : Re → Prop
  | cls p => ∀ at_, (cls p).ends (φ at_) = ((cls p).ends at_).map φ
  | eps => True
  | seq r s => Respects φ r ∧ Respects φ s
  | alt r s => Respects φ r ∧ Respects φ s
  | star r => Respects φ r
  | boundary word => ∀ at_, isOf word (φ at_).prev = isOf word at_.prev ∧
      isOf word (φ at_).rest.head? = isOf word at_.rest.head?
  | notBehind p => ∀ at_, isOf p (φ at_).prev = isOf p at_.prev
  | notAhead r => Respects φ r

section

variable {φ : Place → Place}

/-- A repetition, with fuel enough on both sides. -/
theorem repeated_map {step : Place → List Place}
    (hless : ∀ x y, (φ x).rest.length < (φ y).rest.length ↔ x.rest.length < y.rest.length)
    (hstep : ∀ at_, step (φ at_) = (step at_).map φ) (n m : Nat) (at_ : Place)
    (hn : at_.rest.length ≤ n) (hm : at_.rest.length ≤ m) :
    repeated step n (φ at_) = (repeated step m at_).map φ := by
  have hfilter : ∀ x, (step (φ x)).filter (fun y => y.rest.length < (φ x).rest.length) =
      ((step x).filter fun y => y.rest.length < x.rest.length).map φ := by
    intro x
    rw [hstep, List.filter_map]
    congr 1
    refine List.filter_congr fun y _ => ?_
    simp [hless]
  have hstuck : ∀ x : Place, x.rest.length = 0 →
      (step x).filter (fun y => y.rest.length < x.rest.length) = [] := by
    intro x hzero
    simp [hzero]
  induction n generalizing m at_ with
  | zero =>
    have hzero : at_.rest.length = 0 := Nat.le_zero.mp hn
    cases m with
    | zero => rfl
    | succ m => simp [repeated, hstuck at_ hzero]
  | succ n ih =>
    cases m with
    | zero => simp [repeated, hfilter, hstuck at_ (Nat.le_zero.mp hm)]
    | succ m =>
      rw [repeated, repeated, hfilter, List.map_append, List.map_flatMap, List.flatMap_map]
      congr 1
      refine List.flatMap_congr fun next hnext => ?_
      have hlt : next.rest.length < at_.rest.length := by
        simpa using (List.mem_filter.mp hnext).2
      exact ih m next (by omega) (by omega)

theorem ends_map (hless : ∀ x y, (φ x).rest.length < (φ y).rest.length ↔
      x.rest.length < y.rest.length) (hge : ∀ x, x.rest.length ≤ (φ x).rest.length) :
    ∀ {r : Re}, r.Respects φ → ∀ at_, r.ends (φ at_) = (r.ends at_).map φ
  | cls _, hr, at_ => hr at_
  | eps, _, _ => rfl
  | seq r s, hr, at_ => by
    have hs : ∀ x, s.ends (φ x) = (s.ends x).map φ := ends_map hless hge hr.2
    simp only [ends, ends_map hless hge hr.1, List.flatMap_map, List.map_flatMap, hs]
  | alt r s, hr, at_ => by
    simp only [ends, ends_map hless hge hr.1, ends_map hless hge hr.2, List.map_append]
  | star r, hr, at_ => by
    have hstep : ∀ x, r.ends (φ x) = (r.ends x).map φ := ends_map (r := r) hless hge hr
    exact repeated_map hless hstep _ _ at_ (hge at_) (Nat.le_refl _)
  | boundary word, hr, at_ => by
    simp only [ends, (hr at_).1, (hr at_).2]
    split <;> rfl
  | notBehind p, hr, at_ => by
    simp only [ends, hr at_]
    split <;> rfl
  | notAhead r, hr, at_ => by
    have hahead : r.ends (φ at_) = (r.ends at_).map φ := ends_map (r := r) hless hge hr at_
    simp only [ends, hahead, List.isEmpty_map]
    split <;> rfl

end

/-! ## Behind a separator, and before one -/

/-- An expression that has nothing to do with a separator. -/
def Apart (sep : Char) : Re → Prop
  | cls p => p sep = false
  | eps => True
  | seq r s => Apart sep r ∧ Apart sep s
  | alt r s => Apart sep r ∧ Apart sep s
  | star r => Apart sep r
  | boundary word => word sep = false
  | notBehind p => p sep = false
  | notAhead r => Apart sep r

/-- The same place in a text that goes on behind a separator. -/
def goOn (sep : Char) (tail : List Char) (at_ : Place) : Place :=
  ⟨at_.prev, at_.rest ++ sep :: tail⟩

/-- The same place in a text that begins after the separator. -/
def fresh (sep : Char) (at_ : Place) : Place :=
  ⟨if at_.prev = some sep then none else at_.prev, at_.rest⟩

variable {sep : Char}

theorem isOf_fresh {p : Char → Bool} (hp : p sep = false) (at_ : Place) :
    isOf p (fresh sep at_).prev = isOf p at_.prev := by
  unfold fresh
  by_cases h : at_.prev = some sep
  · simp [h, isOf, hp]
  · simp [h]

theorem respects_goOn {tail : List Char} : ∀ {r : Re}, r.Apart sep → r.Respects (goOn sep tail)
  | cls p, hr => by
    rintro ⟨prev, _ | ⟨c, cs⟩⟩
    · have hp : p sep = false := hr
      simp [ends, goOn, hp]
    · by_cases h : p c <;> simp [ends, goOn, h]
  | eps, _ => trivial
  | seq _ _, hr => ⟨respects_goOn hr.1, respects_goOn hr.2⟩
  | alt _ _, hr => ⟨respects_goOn hr.1, respects_goOn hr.2⟩
  | star r, hr => respects_goOn (r := r) hr
  | boundary word, hr => by
    rintro ⟨prev, _ | ⟨c, cs⟩⟩
    · have hword : word sep = false := hr
      simp [goOn, isOf, hword]
    · simp [goOn]
  | notBehind _, _ => fun _ => rfl
  | notAhead r, hr => respects_goOn (r := r) hr

theorem respects_fresh : ∀ {r : Re}, r.Apart sep → r.Respects (fresh sep)
  | cls p, hr => by
    rintro ⟨prev, _ | ⟨c, cs⟩⟩
    · rfl
    · by_cases h : p c
      · have hne : c ≠ sep := by
          rintro rfl
          exact Bool.false_ne_true ((show p c = false from hr).symm.trans h)
        simp [ends, fresh, h, hne]
      · simp [ends, fresh, h]
  | eps, _ => trivial
  | seq _ _, hr => ⟨respects_fresh hr.1, respects_fresh hr.2⟩
  | alt _ _, hr => ⟨respects_fresh hr.1, respects_fresh hr.2⟩
  | star r, hr => respects_fresh (r := r) hr
  | boundary _, hr => fun at_ => ⟨isOf_fresh hr at_, rfl⟩
  | notBehind _, hr => fun at_ => isOf_fresh hr at_
  | notAhead r, hr => respects_fresh (r := r) hr

variable {r : Re}

theorem ends_goOn (hr : r.Apart sep) (tail : List Char) (at_ : Place) :
    r.ends (goOn sep tail at_) = (r.ends at_).map (goOn sep tail) :=
  ends_map (by simp [goOn]) (by simp [goOn]) (respects_goOn hr) at_

theorem ends_fresh (hr : r.Apart sep) (at_ : Place) :
    r.ends (fresh sep at_) = (r.ends at_).map (fresh sep) :=
  ends_map (by simp [fresh]) (by simp [fresh]) (respects_fresh hr) at_

/-- A match before a separator is a match of what is before it. -/
theorem pattern_append (hr : r.Apart sep) (prev : Option Char) (cs tail : List Char) :
    r.pattern prev (cs ++ sep :: tail) =
      (r.pattern prev cs).map fun found => (found.1, found.2 ++ sep :: tail) := by
  have hends := ends_goOn hr tail ⟨prev, cs⟩
  have hplace : goOn sep tail ⟨prev, cs⟩ = ⟨prev, cs ++ sep :: tail⟩ := rfl
  rw [hplace] at hends
  simp only [pattern, hends, List.head?_map, Option.map_map]
  congr 1
  funext end_
  simp only [goOn, Function.comp_apply, Prod.mk.injEq, and_true, List.length_append,
    List.length_cons]
  rw [Nat.add_sub_add_right, List.take_append_of_le_length (Nat.sub_le _ _)]

/-- After a separator an expression matches as at the beginning of a text. -/
theorem pattern_after (hr : r.Apart sep) (cs : List Char) :
    r.pattern (some sep) cs = r.pattern none cs := by
  have hends := ends_fresh hr ⟨some sep, cs⟩
  simp only [pattern, fresh, if_true] at hends ⊢
  rw [hends, List.head?_map, Option.map_map]
  rfl

/-! ## Where the pieces end -/

theorem mem_ends_seq {r s : Re} {at_ end_ : Place} :
    end_ ∈ (seq r s).ends at_ ↔ ∃ mid ∈ r.ends at_, end_ ∈ s.ends mid := List.mem_flatMap

theorem rest_of_mem_ends_cls {p : Char → Bool} {at_ end_ : Place} (h : end_ ∈ (cls p).ends at_) :
    ∃ c, p c = true ∧ at_.rest = c :: end_.rest := by
  obtain ⟨prev, _ | ⟨c, cs⟩⟩ := at_
  · cases h
  · by_cases hc : p c = true
    · simp only [ends, hc, if_true, List.mem_singleton] at h
      exact ⟨c, hc, by rw [h]⟩
    · simp [ends, hc] at h

theorem eq_of_mem_ends_boundary {word : Char → Bool} {at_ end_ : Place}
    (h : end_ ∈ (boundary word).ends at_) : end_ = at_ := by
  unfold ends at h
  split at h
  · exact List.mem_singleton.mp h
  · cases h

end Re

end Regex

namespace Patterns

/-! ## Replacement part by part -/

variable {m : Pattern} {new : List Char} {sep : Char}

theorem subFrom_append
    (happend : ∀ prev cs tail, m prev (cs ++ sep :: tail) =
      (m prev cs).map fun found => (found.1, found.2 ++ sep :: tail))
    (hempty : ∀ prev, m prev [] = none) (tail : List Char) (k : Nat) (prev : Option Char)
    (cs : List Char) (hk : k ≤ cs.length) :
    subFrom m new k prev (cs ++ sep :: tail) =
      subFrom m new k prev cs ++ sep :: subFrom m new 0 (some sep) tail := by
  induction cs generalizing k prev with
  | nil =>
    obtain rfl : k = 0 := Nat.le_zero.mp hk
    have hnone : m prev (sep :: tail) = none := by
      have h := happend prev [] tail
      rwa [hempty] at h
    simp [subFrom, hnone]
  | cons c cs ih =>
    cases k with
    | succ k => exact ih k (some c) (Nat.le_of_succ_le_succ hk)
    | zero =>
      have h := happend prev (c :: cs) tail
      rw [List.cons_append] at h ⊢
      rw [subFrom, subFrom, h]
      cases m prev (c :: cs) with
      | none => exact congrArg (c :: ·) (ih 0 (some c) (Nat.zero_le _))
      | some found =>
        simp only [Option.map_some, List.length_append, List.length_cons, Nat.add_sub_add_right,
          List.append_assoc]
        rw [ih _ (some c) (Nat.sub_le _ _)]

/-- A replacement that keeps to the parts of a text is one of each part. -/
theorem sub_append
    (happend : ∀ prev cs tail, m prev (cs ++ sep :: tail) =
      (m prev cs).map fun found => (found.1, found.2 ++ sep :: tail))
    (hafter : ∀ cs, m (some sep) cs = m none cs) (hempty : ∀ prev, m prev [] = none)
    (cs tail : List Char) :
    sub m new (cs ++ sep :: tail) = sub m new cs ++ sep :: sub m new tail := by
  rw [sub, subFrom_append happend hempty tail 0 none cs (Nat.zero_le _)]
  have hfresh : subFrom m new 0 (some sep) tail = subFrom m new 0 none tail := by
    cases tail with
    | nil => rfl
    | cons c tail => rw [subFrom, subFrom, hafter]
  rw [hfresh]
  rfl

end Patterns
