/-
  Slas.Lib.ReplayGuard

  A guard lets a message through once: it keeps the ids it has let through, and
  what it keeps does not survive a restart.  So each id passes at most once
  exactly when no message that fits is sent again after a restart.
-/

import Mathlib.Data.List.Nodup

namespace ReplayGuard

inductive Event (M : Type*) where
  | message (m : M)
  | restart

variable {M Id : Type*} (fits : M → Prop) (id : M → Id)

/-- A message with the id fits after a restart. -/
def Late (es : List (Event M)) (i : Id) : Prop :=
  ∃ mid m post, es = mid ++ .message m :: post ∧ .restart ∈ mid ∧ fits m ∧ id m = i

/-- A message fits, and fits again after a restart. -/
def Resent (es : List (Event M)) : Prop :=
  ∃ pre m post, es = pre ++ .message m :: post ∧ fits m ∧ Late fits id post (id m)

variable {fits id} {es : List (Event M)} {seen : List Id} {m : M} {i : Id}

theorem late_restart_iff :
    Late fits id (.restart :: es) i ↔ ∃ m, .message m ∈ es ∧ fits m ∧ id m = i := by
  constructor
  · rintro ⟨mid, m, post, heq, hrestart, hfits, hid⟩
    cases mid with
    | nil => cases hrestart
    | cons e mid =>
      obtain ⟨-, rfl⟩ := List.cons.inj heq
      exact ⟨m, by simp, hfits, hid⟩
  · rintro ⟨m, hm, hfits, hid⟩
    obtain ⟨mid, post, rfl⟩ := List.append_of_mem hm
    exact ⟨.restart :: mid, m, post, rfl, List.mem_cons_self, hfits, hid⟩

theorem late_message_iff : Late fits id (.message m :: es) i ↔ Late fits id es i := by
  constructor
  · rintro ⟨mid, m', post, heq, hrestart, hfits, hid⟩
    cases mid with
    | nil => cases hrestart
    | cons e mid =>
      obtain ⟨rfl, rfl⟩ := List.cons.inj heq
      exact ⟨mid, m', post, rfl, by simpa using hrestart, hfits, hid⟩
  · rintro ⟨mid, m', post, rfl, hrestart, hfits, hid⟩
    exact ⟨.message m :: mid, m', post, rfl, List.mem_cons_of_mem _ hrestart, hfits, hid⟩

theorem resent_restart_iff : Resent fits id (.restart :: es) ↔ Resent fits id es := by
  constructor
  · rintro ⟨pre, m, post, heq, h⟩
    cases pre with
    | nil => cases heq
    | cons e pre =>
      obtain ⟨-, rfl⟩ := List.cons.inj heq
      exact ⟨pre, m, post, rfl, h⟩
  · rintro ⟨pre, m, post, rfl, h⟩
    exact ⟨.restart :: pre, m, post, rfl, h⟩

theorem resent_message_iff :
    Resent fits id (.message m :: es) ↔ (fits m ∧ Late fits id es (id m)) ∨ Resent fits id es := by
  constructor
  · rintro ⟨pre, m', post, heq, h⟩
    cases pre with
    | nil =>
      obtain ⟨hm, rfl⟩ := List.cons.inj heq
      obtain rfl := Event.message.inj hm
      exact Or.inl h
    | cons e pre =>
      obtain ⟨-, rfl⟩ := List.cons.inj heq
      exact Or.inr ⟨pre, m', post, rfl, h⟩
  · rintro (h | ⟨pre, m', post, rfl, h⟩)
    · exact ⟨[], m, es, rfl, h⟩
    · exact ⟨.message m :: pre, m', post, rfl, h⟩

section Guard

variable [DecidableEq Id] [DecidablePred fits]

variable (fits id) in
/-- What passes a guard that has seen some ids. -/
def passed : List Id → List (Event M) → List M
  | _, [] => []
  | _, .restart :: es => passed [] es
  | seen, .message m :: es =>
    if fits m ∧ id m ∉ seen then m :: passed (id m :: seen) es else passed seen es

theorem fits_of_passed (h : m ∈ passed fits id seen es) : .message m ∈ es ∧ fits m := by
  induction es generalizing seen with
  | nil => cases h
  | cons e es ih =>
    cases e with
    | restart =>
      obtain ⟨hmem, hfits⟩ := ih h
      exact ⟨List.mem_cons_of_mem _ hmem, hfits⟩
    | message m' =>
      rw [passed] at h
      split_ifs at h with hpass
      · rcases List.mem_cons.mp h with rfl | h
        · exact ⟨List.mem_cons_self, hpass.1⟩
        · obtain ⟨hmem, hfits⟩ := ih h
          exact ⟨List.mem_cons_of_mem _ hmem, hfits⟩
      · obtain ⟨hmem, hfits⟩ := ih h
        exact ⟨List.mem_cons_of_mem _ hmem, hfits⟩

variable (id) in
/-- The id of a message that fits has been seen, or passes. -/
theorem seen_or_passed (seen : List Id) (h : .message m ∈ es) (hfits : fits m) :
    id m ∈ seen ∨ ∃ m' ∈ passed fits id seen es, id m' = id m := by
  induction es generalizing seen with
  | nil => cases h
  | cons e es ih =>
    cases e with
    | restart =>
      rcases ih [] (by simpa using h) with hnil | hpassed
      · cases hnil
      · exact Or.inr hpassed
    | message m' =>
      rw [passed]
      rcases List.mem_cons.mp h with heq | h
      · obtain rfl := Event.message.inj heq
        by_cases hseen : id m ∈ seen
        · exact Or.inl hseen
        · rw [if_pos ⟨hfits, hseen⟩]
          exact Or.inr ⟨m, List.mem_cons_self, rfl⟩
      · split_ifs with hpass
        · rcases ih (id m' :: seen) h with hseen | ⟨m'', hmem, hid⟩
          · rcases List.mem_cons.mp hseen with hid | hseen
            · exact Or.inr ⟨m', List.mem_cons_self, hid.symm⟩
            · exact Or.inl hseen
          · exact Or.inr ⟨m'', List.mem_cons_of_mem _ hmem, hid⟩
        · exact ih seen h

/-- The induction: what has been seen does not pass again exactly when it does not
    come late. -/
theorem passed_fresh_iff (seen : List Id) :
    (((passed fits id seen es).map id).Nodup ∧ ∀ m ∈ passed fits id seen es, id m ∉ seen) ↔
      ¬ Resent fits id es ∧ ∀ i ∈ seen, ¬ Late fits id es i := by
  induction es generalizing seen with
  | nil => simp [passed, Resent, Late]
  | cons e es ih =>
    cases e with
    | restart =>
      have hnil := ih []
      simp only [List.not_mem_nil, not_false_eq_true, implies_true, and_true, false_implies] at hnil
      rw [passed, hnil, resent_restart_iff]
      refine and_congr_right fun _ => ?_
      simp only [late_restart_iff]
      constructor
      · rintro h i hi ⟨m, hm, hfits, rfl⟩
        rcases seen_or_passed id [] hm hfits with hnone | ⟨m', hm', hid⟩
        · cases hnone
        · exact h m' hm' (hid ▸ hi)
      · intro h m hm hseen
        obtain ⟨hmem, hfits⟩ := fits_of_passed hm
        exact h (id m) hseen ⟨m, hmem, hfits, rfl⟩
    | message m =>
      rw [passed, resent_message_iff]
      simp only [late_message_iff]
      split_ifs with hpass
      · have hcons := ih (id m :: seen)
        simp only [List.mem_cons, not_or, forall_eq_or_imp] at hcons
        simp only [List.map_cons, List.nodup_cons, List.mem_map, List.forall_mem_cons, not_exists,
          not_and, not_or]
        have hfits := hpass.1
        have hseen := hpass.2
        grind
      · rw [ih seen]
        by_cases hfits : fits m
        · have hseen : id m ∈ seen := by
            by_contra hnot
            exact hpass ⟨hfits, hnot⟩
          grind
        · simp [hfits]

/-- **Once each**: the ids that pass are distinct exactly when no message fits
    again after a restart. -/
theorem nodup_passed_iff : ((passed fits id [] es).map id).Nodup ↔ ¬ Resent fits id es := by
  have h := @passed_fresh_iff _ _ fits id es _ _ []
  simpa using h

end Guard

end ReplayGuard
