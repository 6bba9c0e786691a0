/-
  Slas.Lib.Dict

  Python's `dict` as the list of its items, in the order the keys came in.
-/

import Mathlib.Data.List.Basic

namespace Dict

variable {K V : Type*} [DecidableEq K]

def keys (d : List (K × V)) : List K := d.map (·.1)

/-- `d[key] = value`: a key that is there keeps its place. -/
def set (key : K) (value : V) : List (K × V) → List (K × V)
  | [] => [(key, value)]
  | (k, v) :: d => if k = key then (key, value) :: d else (k, v) :: set key value d

/-- `d.pop(key, None)` -/
def pop (key : K) (d : List (K × V)) : List (K × V) := d.filter fun item => item.1 ≠ key

variable {key k : K} {value : V} {d : List (K × V)}

theorem mem_keys_set : k ∈ keys (set key value d) ↔ k = key ∨ k ∈ keys d := by
  induction d with
  | nil => simp [keys, set]
  | cons item d ih =>
    rw [set]
    split_ifs with heq
    · simp [keys, heq]
    · have hcons : ∀ e : List (K × V), k ∈ keys (item :: e) ↔ k = item.1 ∨ k ∈ keys e := by
        simp [keys]
      rw [hcons, hcons, ih, or_left_comm]

theorem mem_set {item : K × V} (h : item ∈ set key value d) : item = (key, value) ∨ item ∈ d := by
  induction d with
  | nil => exact Or.inl (List.mem_singleton.mp h)
  | cons first d ih =>
    rw [set] at h
    split_ifs at h
    · exact (List.mem_cons.mp h).imp id (List.mem_cons_of_mem _)
    · rcases List.mem_cons.mp h with rfl | h
      · exact Or.inr List.mem_cons_self
      · exact (ih h).imp id (List.mem_cons_of_mem _)

theorem nodup_keys_set (h : (keys d).Nodup) : (keys (set key value d)).Nodup := by
  induction d with
  | nil => simp [keys, set]
  | cons first d ih =>
    have hd := List.nodup_cons.mp h
    rw [set]
    split_ifs with heq
    · subst heq
      exact List.nodup_cons.mpr hd
    · refine List.nodup_cons.mpr ⟨fun hmem => ?_, ih hd.2⟩
      rcases mem_keys_set.mp hmem with hsame | hmem
      · exact heq hsame
      · exact hd.1 hmem

theorem lookup_cons_eq_if {item : K × V} :
    List.lookup k (item :: d) = if k = item.1 then some item.2 else List.lookup k d := by
  rw [List.lookup_cons]
  by_cases hk : k = item.1
  · rw [if_pos hk, beq_iff_eq.mpr hk]
  · rw [if_neg hk, beq_eq_false_iff_ne.mpr hk]

theorem lookup_set : List.lookup k (set key value d) =
    if k = key then some value else List.lookup k d := by
  induction d with
  | nil => rw [set, lookup_cons_eq_if]
  | cons first d ih =>
    rw [set]
    by_cases heq : first.1 = key
    · rw [if_pos heq, lookup_cons_eq_if, lookup_cons_eq_if, heq]
      split_ifs <;> rfl
    · rw [if_neg heq, lookup_cons_eq_if, ih, lookup_cons_eq_if]
      by_cases hk : k = key
      · have hne : k ≠ first.1 := fun h => heq (h.symm.trans hk)
        simp only [if_pos hk, if_neg hne]
      · simp only [if_neg hk]

theorem lookup_isSome_iff : (List.lookup k d).isSome ↔ k ∈ keys d := by
  induction d with
  | nil => simp [keys]
  | cons first d ih =>
    have hcons : k ∈ keys (first :: d) ↔ k = first.1 ∨ k ∈ keys d := by simp [keys]
    rw [lookup_cons_eq_if, hcons, ← ih]
    split_ifs with hk <;> simp [hk]

/-- Each item is what a look-up of its key finds. -/
theorem lookup_eq_of_mem (h : (keys d).Nodup) {item : K × V} (hmem : item ∈ d) :
    List.lookup item.1 d = some item.2 := by
  induction d with
  | nil => simp at hmem
  | cons first d ih =>
    have hd := List.nodup_cons.mp h
    rw [lookup_cons_eq_if]
    rcases List.mem_cons.mp hmem with rfl | hmem
    · rw [if_pos rfl]
    · have hkey : item.1 ∈ keys d := List.mem_map_of_mem hmem
      have hne : item.1 ≠ first.1 := fun heq => hd.1 (by rwa [heq] at hkey)
      rw [if_neg hne, ih hd.2 hmem]

theorem mem_of_lookup (h : List.lookup k d = some value) : (k, value) ∈ d := by
  induction d with
  | nil => simp at h
  | cons first d ih =>
    rw [lookup_cons_eq_if] at h
    split_ifs at h with hk
    · cases h
      exact hk ▸ List.mem_cons_self
    · exact List.mem_cons_of_mem _ (ih h)

/-- Items that are set one after the other, each key once. -/
theorem lookup_foldl_set {items : List (K × V)} (h : (keys items).Nodup) :
    List.lookup k (items.foldl (fun d item => set item.1 item.2 d) d) =
      (List.lookup k items).or (List.lookup k d) := by
  induction items generalizing d with
  | nil => rfl
  | cons item items ih =>
    have hitems := List.nodup_cons.mp h
    rw [List.foldl_cons, ih hitems.2, lookup_set, lookup_cons_eq_if]
    split_ifs with hk
    · have hnone : List.lookup k items = none := by
        cases hfound : List.lookup k items with
        | none => rfl
        | some v =>
          have hkey : k ∈ keys items := lookup_isSome_iff.mp (by rw [hfound]; rfl)
          exact absurd (by rwa [hk] at hkey) hitems.1
      rw [hnone]
      rfl
    · rfl

theorem set_of_not_mem (h : key ∉ keys d) : set key value d = d ++ [(key, value)] := by
  induction d with
  | nil => rfl
  | cons first d ih =>
    have hne : first.1 ≠ key := fun heq => h (by simp [keys, heq])
    have hrest : key ∉ keys d := fun hmem => h (List.mem_cons_of_mem _ hmem)
    rw [set, if_neg hne, ih hrest, List.cons_append]

/-- New keys come in their order. -/
theorem foldl_set_of_nodup {items : List (K × V)} (h : (keys (d ++ items)).Nodup) :
    items.foldl (fun d item => set item.1 item.2 d) d = d ++ items := by
  induction items generalizing d with
  | nil => simp
  | cons item items ih =>
    have hsplit : d ++ item :: items = (d ++ [item]) ++ items := by simp
    have hnew : item.1 ∉ keys d := by
      intro hmem
      simp only [keys, List.map_append, List.map_cons] at h hmem
      exact (List.nodup_append.mp h).2.2 _ hmem _ List.mem_cons_self rfl
    rw [List.foldl_cons, set_of_not_mem hnew, hsplit]
    exact ih (hsplit ▸ h)

theorem lookup_pop : List.lookup k (pop key d) = if k = key then none else List.lookup k d := by
  induction d with
  | nil => simp [pop]
  | cons first d ih =>
    by_cases hfirst : first.1 = key
    · have hpop : pop key (first :: d) = pop key d := List.filter_cons_of_neg (by simpa using hfirst)
      rw [hpop, ih, lookup_cons_eq_if, hfirst]
      split_ifs <;> rfl
    · have hpop : pop key (first :: d) = first :: pop key d :=
        List.filter_cons_of_pos (by simpa using hfirst)
      rw [hpop, lookup_cons_eq_if, lookup_cons_eq_if, ih]
      by_cases hk : k = first.1
      · have hne : k ≠ key := fun h => hfirst (hk.symm.trans h)
        simp only [if_pos hk, if_neg hne]
      · simp only [if_neg hk]

theorem mem_keys_pop : k ∈ keys (pop key d) ↔ k ≠ key ∧ k ∈ keys d := by
  simp only [keys, pop, List.mem_map, List.mem_filter, decide_eq_true_eq]
  constructor
  · rintro ⟨item, ⟨hin, hne⟩, rfl⟩
    exact ⟨hne, item, hin, rfl⟩
  · rintro ⟨hne, item, hin, rfl⟩
    exact ⟨item, ⟨hin, hne⟩, rfl⟩

end Dict
