/-
  Slas.Lib.Trace

  Past-time operators on a finite trace of events: what has started and not
  stopped since, what every event finds when it happens, and the last and first
  values that events give.  They are given by how they change when one more event
  happens.
-/

import Mathlib.Data.List.Basic
import Mathlib.Data.List.TakeWhile

namespace Trace

variable {E : Type*}

/-- `start` happened, and `stop` has not happened since. -/
def Open (start stop : E → Prop) (es : List E) : Prop :=
  ∃ pre e mid, es = pre ++ e :: mid ∧ start e ∧ ∀ x ∈ mid, ¬ stop x

/-- Every event finds `φ` of the trace before it. -/
def Always (φ : List E → E → Prop) (es : List E) : Prop :=
  ∀ pre e post, es = pre ++ e :: post → φ pre e

variable {start stop : E → Prop} {φ : List E → E → Prop} {es : List E} {e : E}

theorem not_open_nil : ¬ Open start stop ([] : List E) := by
  rintro ⟨pre, e, mid, heq, -⟩
  simp at heq

/-- Where a trace is cut that has just grown: at its last event, or before it. -/
theorem cut_snoc {pre post : List E} {x : E} (h : es ++ [e] = pre ++ x :: post) :
    (es = pre ∧ e = x ∧ post = []) ∨ ∃ post', es = pre ++ x :: post' ∧ post = post' ++ [e] := by
  rcases List.eq_nil_or_concat post with rfl | ⟨post', y, rfl⟩
  · obtain ⟨rfl, hlast⟩ := List.append_inj' h rfl
    exact Or.inl ⟨rfl, List.singleton_inj.mp hlast, rfl⟩
  · have hlonger : es ++ [e] = (pre ++ x :: post') ++ [y] := by simpa using h
    obtain ⟨rfl, hlast⟩ := List.append_inj' hlonger rfl
    exact Or.inr ⟨post', rfl, by simpa using hlast.symm⟩

theorem open_snoc : Open start stop (es ++ [e]) ↔ start e ∨ Open start stop es ∧ ¬ stop e := by
  constructor
  · rintro ⟨pre, x, mid, heq, hstart, hmid⟩
    rcases cut_snoc heq with ⟨-, rfl, -⟩ | ⟨mid', rfl, rfl⟩
    · exact Or.inl hstart
    · exact Or.inr ⟨⟨pre, x, mid', rfl, hstart, fun y hy => hmid y (by simp [hy])⟩,
        hmid e (by simp)⟩
  · rintro (hstart | ⟨⟨pre, x, mid, rfl, hstart, hmid⟩, hstop⟩)
    · exact ⟨es, e, [], rfl, hstart, by simp⟩
    · refine ⟨pre, x, mid ++ [e], by simp, hstart, fun y hy => ?_⟩
      rcases List.mem_append.mp hy with hy | hy
      · exact hmid y hy
      · exact List.mem_singleton.mp hy ▸ hstop

theorem always_nil : Always φ ([] : List E) := by
  intro pre e post heq
  simp at heq

theorem always_cons :
    Always φ (e :: es) ↔ φ [] e ∧ Always (fun pre x => φ (e :: pre) x) es := by
  constructor
  · exact fun h => ⟨h [] e es rfl, fun pre x post heq => h (e :: pre) x post (by simp [heq])⟩
  · rintro ⟨he, hes⟩ pre x post heq
    cases pre with
    | nil =>
      obtain ⟨rfl, -⟩ := List.cons.inj heq
      exact he
    | cons y pre =>
      obtain ⟨rfl, rfl⟩ := List.cons.inj heq
      exact hes pre x post rfl

theorem always_snoc : Always φ (es ++ [e]) ↔ Always φ es ∧ φ es e := by
  constructor
  · exact fun h => ⟨fun pre x post heq => h pre x (post ++ [e]) (by simp [heq]), h es e [] rfl⟩
  · rintro ⟨hes, he⟩ pre x post heq
    rcases cut_snoc heq with ⟨rfl, rfl, -⟩ | ⟨post', hcut, -⟩
    · exact he
    · exact hes pre x post' hcut

/-! ## Values of events -/

section Values

variable {β : Type*} {f : E → Option β} {begins : E → Bool}

/-- The last value that an event gives. -/
def lastOf (f : E → Option β) (es : List E) : Option β := (es.filterMap f).getLast?

/-- The first value that an event gives, once an event has begun. -/
def firstAfter (begins : E → Bool) (f : E → Option β) (es : List E) : Option β :=
  ((es.dropWhile fun e => !begins e).filterMap f).head?

@[simp] theorem lastOf_nil : lastOf f [] = none := rfl

theorem lastOf_snoc : lastOf f (es ++ [e]) = (f e).or (lastOf f es) := by
  rw [lastOf, List.filterMap_append, List.getLast?_append]
  cases hf : f e <;> simp [hf, lastOf]

theorem lastOf_ne_none {b : β} (he : e ∈ es) (hf : f e = some b) : lastOf f es ≠ none := by
  rw [lastOf, ne_eq, List.getLast?_eq_none_iff]
  exact List.ne_nil_of_mem (List.mem_filterMap.mpr ⟨e, he, hf⟩)

theorem firstAfter_of_not_begun (h : es.any begins = false) : firstAfter begins f es = none := by
  have hdrop : es.dropWhile (fun e => !begins e) = [] :=
    List.dropWhile_eq_nil_iff.mpr fun e he => by simpa using List.any_eq_false.mp h e he
  rw [firstAfter, hdrop]
  rfl

/-- Once an event has begun, the first value stays the first. -/
theorem firstAfter_snoc (hf : begins e = true → f e = none) :
    firstAfter begins f (es ++ [e]) =
      (firstAfter begins f es).or (if es.any begins then f e else none) := by
  cases hbegun : es.any begins with
  | true =>
    have hne : es.dropWhile (fun e => !begins e) ≠ [] := by
      obtain ⟨x, hx, hbegins⟩ := List.any_eq_true.mp hbegun
      intro heq
      simpa [hbegins] using List.dropWhile_eq_nil_iff.mp heq x hx
    have hdrop : (es ++ [e]).dropWhile (fun e => !begins e) =
        es.dropWhile (fun e => !begins e) ++ [e] := by
      rw [List.dropWhile_append, if_neg (by simpa using hne)]
    rw [firstAfter, hdrop, List.filterMap_append, List.head?_append, if_pos rfl]
    cases hfe : f e <;> simp [hfe, firstAfter]
  | false =>
    have hdrop : es.dropWhile (fun e => !begins e) = [] :=
      List.dropWhile_eq_nil_iff.mpr fun x hx => by simpa using List.any_eq_false.mp hbegun x hx
    rw [firstAfter_of_not_begun hbegun, firstAfter, List.dropWhile_append, hdrop]
    cases hbegins : begins e <;> simp [hbegins, hf]

/-- A value that comes first is given by an event. -/
theorem exists_of_firstAfter {b : β} (h : firstAfter begins f es = some b) :
    ∃ e ∈ es, f e = some b := by
  obtain ⟨e, he, hf⟩ := List.mem_filterMap.mp (List.mem_of_head? h)
  exact ⟨e, (List.dropWhile_sublist _).subset he, hf⟩

end Values

end Trace
