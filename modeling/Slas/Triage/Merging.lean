/-
  Slas.Triage.Merging

  What a merge by fingerprint keeps, a turn of its loop at a time: the fields of the first
  finding (`first_of_mem`), the lines of evidence without repetition
  (`distinct_merge_iff`) and their number (`short_merge_iff`).  A finding that was merged
  can be merged again without effect (`merge_of_seen`).
-/

import Mathlib.Data.List.Nodup
import Slas.Lib.Runs
import Slas.Triage.Dedup

namespace Slas

/-- The loop: the findings merged, in order, into those that are known. -/
def mergeFindings (known fs : List Finding) : List Finding :=
  Runs.run (fun seen f => addFinding f seen) known fs

variable {known fs : List Finding} {f g x : Finding} {d : Fingerprint}

@[simp] theorem mergeFindings_nil : mergeFindings known [] = known := rfl

@[simp] theorem mergeFindings_cons :
    mergeFindings known (f :: fs) = mergeFindings (addFinding f known) fs := rfl

theorem mergeFindings_append {gs : List Finding} :
    mergeFindings known (fs ++ gs) = mergeFindings (mergeFindings known fs) gs := Runs.run_append

theorem dedupFindings_eq : dedupFindings fs = mergeFindings [] fs := rfl

/-! ## One turn -/

theorem mem_fingerprints_addFinding :
    d ∈ fingerprints (addFinding f known) ↔ d ∈ fingerprints known ∨ d = f.fingerprint := by
  rw [fingerprints_addFinding]
  split
  · rename_i hmem
    exact ⟨Or.inl, fun h => h.elim id fun hd => hd ▸ hmem⟩
  · rw [List.mem_append, List.mem_singleton]

theorem nodup_addFinding (h : (fingerprints known).Nodup) :
    (fingerprints (addFinding f known)).Nodup :=
  nodup_foldl_findings fingerprints_addFinding [f] known h

theorem nodup_mergeFindings (h : (fingerprints known).Nodup) :
    (fingerprints (mergeFindings known fs)).Nodup :=
  nodup_foldl_findings fingerprints_addFinding fs known h

/-- A new finding comes last. -/
theorem addFinding_of_new (h : f.fingerprint ∉ fingerprints known) :
    addFinding f known = known ++ [f] := upsertFinding_of_not_mem h

theorem fingerprint_mem (h : g ∈ known) : g.fingerprint ∈ fingerprints known :=
  List.mem_map_of_mem h

/-- A repeat changes the finding of its fingerprint, and no other. -/
theorem addFinding_of_known (hnodup : (fingerprints known).Nodup)
    (h : f.fingerprint ∈ fingerprints known) :
    addFinding f known =
      known.map fun g => if g.fingerprint = f.fingerprint then g.seenAgain f else g := by
  induction known with
  | nil => simp at h
  | cons g gs ih =>
    rw [fingerprints_cons, List.nodup_cons] at hnodup
    obtain ⟨hg, hgs⟩ := hnodup
    rw [addFinding, upsertFinding, List.map_cons]
    by_cases heq : g.fingerprint = f.fingerprint
    · have hrest : gs.map (fun g => if g.fingerprint = f.fingerprint then g.seenAgain f else g) =
          gs := by
        conv_rhs => rw [← List.map_id gs]
        refine List.map_congr_left fun y hy => if_neg fun hy' => hg ?_
        rw [heq, ← hy']
        exact fingerprint_mem hy
      rw [if_pos heq, if_pos heq, hrest]
    · rw [fingerprints_cons, List.mem_cons] at h
      rw [if_neg heq, if_neg heq]
      exact congrArg (g :: ·) (ih hgs (h.resolve_left fun hf => heq hf.symm))

/-- What a turn makes of the findings. -/
theorem mem_addFinding (hnodup : (fingerprints known).Nodup) :
    x ∈ addFinding f known ↔ (f.fingerprint ∉ fingerprints known ∧ x = f) ∨
      ∃ g ∈ known, x = if g.fingerprint = f.fingerprint then g.seenAgain f else g := by
  by_cases hknown : f.fingerprint ∈ fingerprints known
  · rw [addFinding_of_known hnodup hknown, List.mem_map]
    simp [hknown, eq_comm]
  · have hne : ∀ g ∈ known, g.fingerprint ≠ f.fingerprint :=
      fun g hg heq => hknown (heq ▸ fingerprint_mem hg)
    rw [addFinding_of_new hknown, List.mem_append, List.mem_singleton]
    constructor
    · rintro (hx | rfl)
      · exact Or.inr ⟨x, hx, by rw [if_neg (hne x hx)]⟩
      · exact Or.inl ⟨hknown, rfl⟩
    · rintro (⟨-, rfl⟩ | ⟨g, hg, rfl⟩)
      · exact Or.inr rfl
      · rw [if_neg (hne g hg)]
        exact Or.inl hg

theorem find?_of_nodup (hnodup : (fingerprints known).Nodup) (hg : g ∈ known) :
    known.find? (fun y => y.fingerprint = g.fingerprint) = some g := by
  induction known with
  | nil => cases hg
  | cons y ys ih =>
    rw [fingerprints_cons, List.nodup_cons] at hnodup
    obtain ⟨hy, hys⟩ := hnodup
    rcases List.mem_cons.mp hg with rfl | hg
    · simp
    · have hne : y.fingerprint ≠ g.fingerprint := fun heq => hy (heq ▸ fingerprint_mem hg)
      rw [List.find?_cons_of_neg (by simpa using hne)]
      exact ih hys hg

theorem find?_eq_none_of_new (h : d ∉ fingerprints known) :
    known.find? (fun y => y.fingerprint = d) = none := by
  rw [List.find?_eq_none]
  intro y hy heq
  exact h (of_decide_eq_true heq ▸ fingerprint_mem hy)

/-! ## The fields of the first -/

/-- A finding of the merge is the first one of its fingerprint, but for the evidence. -/
theorem first_of_mem (hnodup : (fingerprints known).Nodup) (hx : x ∈ mergeFindings known fs) :
    ∃ first, (known ++ fs).find? (fun y => y.fingerprint = x.fingerprint) = some first ∧
      { x with evidence := first.evidence } = first := by
  -- what comes first in `all` is first in the merge so far
  suffices h : ∀ all : List Finding,
      (∀ g ∈ known, ∃ first, all.find? (fun y => y.fingerprint = g.fingerprint) = some first ∧
        { g with evidence := first.evidence } = first) →
      (∀ d, d ∈ fingerprints all ↔ d ∈ fingerprints known) →
      ∃ first, (all ++ fs).find? (fun y => y.fingerprint = x.fingerprint) = some first ∧
        { x with evidence := first.evidence } = first from
    h known (fun g hg => ⟨g, find?_of_nodup hnodup hg, rfl⟩) fun _ => Iff.rfl
  induction fs generalizing known with
  | nil =>
    intro all hfirst _
    rw [List.append_nil]
    exact hfirst x hx
  | cons f fs ih =>
    intro all hfirst hkeys
    rw [← List.singleton_append, ← List.append_assoc]
    refine ih (nodup_addFinding hnodup) hx (all ++ [f]) (fun g hg => ?_) fun d => ?_
    · rw [List.find?_append]
      rcases (mem_addFinding hnodup).mp hg with ⟨hnew, rfl⟩ | ⟨y, hy, rfl⟩
      · rw [find?_eq_none_of_new (fun h => hnew ((hkeys _).mp h))]
        exact ⟨g, by simp, rfl⟩
      · obtain ⟨first, hfind, hsame⟩ := hfirst y hy
        refine ⟨first, ?_, ?_⟩
        · split <;> simp [hfind, Finding.seenAgain]
        · split <;> simpa [Finding.seenAgain] using hsame
    · rw [mem_fingerprints_addFinding, fingerprints_append, List.mem_append, hkeys]
      simp

/-! ## Lines of evidence -/

/-- The lines that a repeat adds, if there is room. -/
def Finding.newLines (first f : Finding) : List String :=
  f.evidence.filter fun e => !first.evidence.contains e

theorem evidence_seenAgain : (g.seenAgain f).evidence = (g.evidence ++ g.newLines f).take 20 := rfl

@[simp] theorem fingerprint_seenAgain : (g.seenAgain f).fingerprint = g.fingerprint := rfl

theorem not_mem_of_newLines {e : String} (h : e ∈ g.newLines f) : e ∉ g.evidence := by
  have hfilter := (List.mem_filter.mp h).2
  simpa using hfilter

theorem take_evidence_seenAgain : (g.seenAgain f).evidence.take 20 =
    g.evidence.take 20 ++ (g.newLines f).take (20 - g.evidence.length) := by
  rw [evidence_seenAgain, List.take_take, Nat.min_self, List.take_append]

/-- The first twenty lines of each finding are distinct. -/
def Distinct (seen : List Finding) : Prop := ∀ g ∈ seen, (g.evidence.take 20).Nodup

/-- The lines that a turn adds are distinct: of a new finding the first twenty, of a repeat
    the new ones that there is room for. -/
def AddsDistinct (seen : List Finding) (f : Finding) : Prop :=
  match seen.find? fun y => y.fingerprint = f.fingerprint with
  | none => (f.evidence.take 20).Nodup
  | some first => ((first.newLines f).take (20 - first.evidence.length)).Nodup

theorem nodup_seenAgain_iff (hg : (g.evidence.take 20).Nodup) :
    ((g.seenAgain f).evidence.take 20).Nodup ↔
      ((g.newLines f).take (20 - g.evidence.length)).Nodup := by
  rw [take_evidence_seenAgain, List.nodup_append]
  constructor
  · exact fun h => h.2.1
  · refine fun h => ⟨hg, h, fun a ha b hb hab => ?_⟩
    exact not_mem_of_newLines (List.mem_of_mem_take hb) (hab ▸ List.mem_of_mem_take ha)

theorem distinct_addFinding_iff (hnodup : (fingerprints known).Nodup) (hdistinct : Distinct known) :
    Distinct (addFinding f known) ↔ AddsDistinct known f := by
  unfold AddsDistinct
  by_cases hknown : f.fingerprint ∈ fingerprints known
  · obtain ⟨g, hg, heq⟩ := List.mem_map.mp hknown
    rw [← heq, find?_of_nodup hnodup hg]
    constructor
    · intro h
      have hin : g.seenAgain f ∈ addFinding f known :=
        (mem_addFinding hnodup).mpr (Or.inr ⟨g, hg, by rw [if_pos heq]⟩)
      exact (nodup_seenAgain_iff (hdistinct g hg)).mp (h _ hin)
    · intro h y hy
      rcases (mem_addFinding hnodup).mp hy with ⟨hnew, -⟩ | ⟨z, hz, rfl⟩
      · exact absurd hknown hnew
      · split_ifs with hz'
        · have hsame : z = g := by
            have hfind := find?_of_nodup hnodup hz
            rw [hz', ← heq, find?_of_nodup hnodup hg] at hfind
            exact (Option.some.inj hfind).symm
          rw [hsame]
          exact (nodup_seenAgain_iff (hdistinct g hg)).mpr h
        · exact hdistinct z hz
  · rw [find?_eq_none_of_new hknown, addFinding_of_new hknown]
    constructor
    · exact fun h => h f (by simp)
    · intro h y hy
      rcases List.mem_append.mp hy with hy | hy
      · exact hdistinct y hy
      · rw [List.mem_singleton.mp hy]
        exact h

/-- Lines that come twice among the first twenty stay. -/
theorem distinct_of_addFinding (hnodup : (fingerprints known).Nodup)
    (h : Distinct (addFinding f known)) : Distinct known := by
  intro g hg
  have hin := h _ ((mem_addFinding hnodup).mpr (Or.inr ⟨g, hg, rfl⟩))
  split_ifs at hin
  · rw [take_evidence_seenAgain, List.nodup_append] at hin
    exact hin.1
  · exact hin

theorem distinct_of_merge (hnodup : (fingerprints known).Nodup)
    (h : Distinct (mergeFindings known fs)) : Distinct known := by
  induction fs generalizing known with
  | nil => exact h
  | cons f fs ih => exact distinct_of_addFinding hnodup (ih (nodup_addFinding hnodup) h)

/-- **Distinct lines**: the lines of a merge are distinct if every turn adds distinct lines. -/
theorem distinct_merge_iff (hnodup : (fingerprints known).Nodup) (hdistinct : Distinct known) :
    Distinct (mergeFindings known fs) ↔
      Runs.Meets (fun seen f => addFinding f seen) AddsDistinct known fs := by
  induction fs generalizing known with
  | nil => exact iff_of_true hdistinct Runs.meets_nil
  | cons f fs ih =>
    rw [mergeFindings_cons, Runs.meets_cons]
    by_cases hadds : AddsDistinct known f
    · have hturn := (distinct_addFinding_iff hnodup hdistinct).mpr hadds
      rw [ih (nodup_addFinding hnodup) hturn]
      exact (and_iff_right hadds).symm
    · refine iff_of_false (fun h => hadds ?_) fun h => hadds h.1
      exact (distinct_addFinding_iff hnodup hdistinct).mp
        (distinct_of_merge (nodup_addFinding hnodup) h)

/-- No finding has more than twenty lines. -/
def Short (seen : List Finding) : Prop := ∀ g ∈ seen, g.evidence.length ≤ 20

theorem length_seenAgain : (g.seenAgain f).evidence.length ≤ 20 := by
  rw [evidence_seenAgain]
  exact List.length_take_le _ _

/-- **At most twenty lines**: a finding has more only where nothing repeats it. -/
theorem short_merge_iff (hnodup : (fingerprints known).Nodup) :
    Short (mergeFindings known fs) ↔
      (∀ g ∈ known, g.evidence.length ≤ 20 ∨ g.fingerprint ∈ fingerprints fs) ∧
      ∀ f ∈ fs, f.fingerprint ∉ fingerprints known → (fingerprints fs).count f.fingerprint = 1 →
        f.evidence.length ≤ 20 := by
  induction fs generalizing known with
  | nil => simp [Short]
  | cons f fs ih =>
    have hcount : ∀ d, (fingerprints (f :: fs)).count d =
        (fingerprints fs).count d + if f.fingerprint = d then 1 else 0 := by
      intro d
      simp [List.count_cons]
    have hzero : ∀ d, d ∉ fingerprints fs ↔ (fingerprints fs).count d = 0 := by
      intro d
      rw [List.count_eq_zero]
    rw [mergeFindings_cons, ih (nodup_addFinding hnodup)]
    constructor
    · rintro ⟨hadded, hlater⟩
      refine ⟨fun g hg => ?_, fun x hx hnew hone => ?_⟩
      · have hg' := hadded _ ((mem_addFinding hnodup).mpr (Or.inr ⟨g, hg, rfl⟩))
        rw [fingerprints_cons, List.mem_cons]
        split_ifs at hg' with heq
        · exact Or.inr (Or.inl heq)
        · exact hg'.imp id Or.inr
      · rw [hcount] at hone
        rcases List.mem_cons.mp hx with rfl | hx
        · rw [if_pos rfl] at hone
          exact (hadded x ((mem_addFinding hnodup).mpr (Or.inl ⟨hnew, rfl⟩))).resolve_right
            ((hzero _).mpr (by omega))
        · have hpos : 0 < (fingerprints fs).count x.fingerprint :=
            List.count_pos_iff.mpr (fingerprint_mem hx)
          have hne : f.fingerprint ≠ x.fingerprint := by
            intro heq
            rw [if_pos heq] at hone
            omega
          rw [if_neg hne] at hone
          refine hlater x hx (fun hin => ?_) hone
          rcases mem_fingerprints_addFinding.mp hin with hin | hin
          · exact hnew hin
          · exact hne hin.symm
    · rintro ⟨hold, hone⟩
      refine ⟨fun y hy => ?_, fun x hx hnew hcnt => ?_⟩
      · rcases (mem_addFinding hnodup).mp hy with ⟨hnew, rfl⟩ | ⟨g, hg, rfl⟩
        · by_cases hagain : y.fingerprint ∈ fingerprints fs
          · exact Or.inr hagain
          · refine Or.inl (hone y (List.mem_cons_self ..) hnew ?_)
            rw [hcount, (hzero _).mp hagain, if_pos rfl]
        · split_ifs with heq
          · exact Or.inl length_seenAgain
          · rcases hold g hg with hshort | hin
            · exact Or.inl hshort
            · rw [fingerprints_cons, List.mem_cons] at hin
              exact Or.inr (hin.resolve_left heq)
      · have hnot := fun hin => hnew (mem_fingerprints_addFinding.mpr hin)
        refine hone x (List.mem_cons_of_mem _ hx) (fun hin => hnot (Or.inl hin)) ?_
        rw [hcount, hcnt, if_neg fun heq => hnot (Or.inr heq.symm)]

/-! ## A finding that is merged again -/

/-- The lines of the other finding are there, or there is no room for more. -/
def Finding.Covers (g f : Finding) : Prop := f.evidence ⊆ g.evidence ∨ 20 ≤ g.evidence.length

/-- A finding of the fingerprint covers it. -/
def Seen (seen : List Finding) (f : Finding) : Prop :=
  ∃ g ∈ seen, g.fingerprint = f.fingerprint ∧ g.Covers f

theorem covers_seenAgain_self : (g.seenAgain f).Covers f := by
  by_cases hroom : (g.evidence ++ g.newLines f).length ≤ 20
  · refine Or.inl fun e he => ?_
    rw [evidence_seenAgain, List.take_of_length_le hroom, List.mem_append]
    by_cases hin : e ∈ g.evidence
    · exact Or.inl hin
    · exact Or.inr (List.mem_filter.mpr ⟨he, by simpa using hin⟩)
  · refine Or.inr ?_
    rw [evidence_seenAgain, List.length_take]
    omega

theorem Finding.Covers.seenAgain {h : Finding} (hcovers : g.Covers f) : (g.seenAgain h).Covers f := by
  by_cases hfull : 20 ≤ g.evidence.length
  · refine Or.inr ?_
    rw [evidence_seenAgain, List.length_take, List.length_append]
    omega
  · refine Or.inl fun e he => ?_
    rw [evidence_seenAgain, List.take_append, List.take_of_length_le (by omega), List.mem_append]
    exact Or.inl (hcovers.resolve_right hfull he)

theorem seen_addFinding_self (hnodup : (fingerprints known).Nodup) : Seen (addFinding f known) f := by
  by_cases hknown : f.fingerprint ∈ fingerprints known
  · obtain ⟨g, hg, heq⟩ := List.mem_map.mp hknown
    refine ⟨g.seenAgain f, ?_, heq, covers_seenAgain_self⟩
    exact (mem_addFinding hnodup).mpr (Or.inr ⟨g, hg, by rw [if_pos heq]⟩)
  · exact ⟨f, (mem_addFinding hnodup).mpr (Or.inl ⟨hknown, rfl⟩), rfl,
      Or.inl (List.Subset.refl _)⟩

theorem Seen.addFinding {h : Finding} (hnodup : (fingerprints known).Nodup) (hseen : Seen known f) :
    Seen (addFinding h known) f := by
  obtain ⟨g, hg, heq, hcovers⟩ := hseen
  refine ⟨_, (mem_addFinding hnodup).mpr (Or.inr ⟨g, hg, rfl⟩), ?_⟩
  split_ifs
  · exact ⟨heq, hcovers.seenAgain⟩
  · exact ⟨heq, hcovers⟩

theorem Seen.merge (hnodup : (fingerprints known).Nodup) (hseen : Seen known f) :
    Seen (mergeFindings known fs) f := by
  induction fs generalizing known with
  | nil => exact hseen
  | cons h fs ih => exact ih (nodup_addFinding hnodup) (hseen.addFinding hnodup)

/-- What was merged is covered from then on. -/
theorem seen_merge (hnodup : (fingerprints known).Nodup) (hf : f ∈ fs) :
    Seen (mergeFindings known fs) f := by
  induction fs generalizing known with
  | nil => cases hf
  | cons h fs ih =>
    rw [mergeFindings_cons]
    rcases List.mem_cons.mp hf with rfl | hf
    · exact (seen_addFinding_self hnodup).merge (nodup_addFinding hnodup)
    · exact ih (nodup_addFinding hnodup) hf

theorem seenAgain_of_covers (hshort : g.evidence.length ≤ 20) (hcovers : g.Covers f) :
    g.seenAgain f = g := by
  have hsame : (g.evidence ++ g.newLines f).take 20 = g.evidence := by
    rcases hcovers with hsub | hfull
    · have hnone : g.newLines f = [] := by
        rw [Finding.newLines, List.filter_eq_nil_iff]
        intro e he
        simpa using hsub he
      rw [hnone, List.append_nil, List.take_of_length_le hshort]
    · rw [List.take_append_of_le_length hfull, List.take_of_length_le hshort]
  unfold Finding.seenAgain
  change { g with evidence := (g.evidence ++ g.newLines f).take 20 } = g
  rw [hsame]

theorem addFinding_of_seen (hnodup : (fingerprints known).Nodup) (hshort : Short known)
    (hseen : Seen known f) : addFinding f known = known := by
  obtain ⟨g, hg, heq, hcovers⟩ := hseen
  rw [addFinding_of_known hnodup (heq ▸ fingerprint_mem hg)]
  conv_rhs => rw [← List.map_id known]
  refine List.map_congr_left fun y hy => ?_
  split_ifs with hy'
  · have hsame : y = g := by
      have hfind := find?_of_nodup hnodup hy
      rw [hy', ← heq, find?_of_nodup hnodup hg] at hfind
      exact (Option.some.inj hfind).symm
    rw [hsame]
    exact seenAgain_of_covers (hshort g hg) hcovers
  · rfl

/-- **Again**: findings that are covered can be merged without effect. -/
theorem merge_of_seen (hnodup : (fingerprints known).Nodup) (hshort : Short known)
    (hseen : ∀ f ∈ fs, Seen known f) : mergeFindings known fs = known := by
  induction fs with
  | nil => rfl
  | cons f fs ih =>
    rw [mergeFindings_cons, addFinding_of_seen hnodup hshort (hseen f (List.mem_cons_self ..))]
    exact ih fun y hy => hseen y (List.mem_cons_of_mem _ hy)

end Slas
