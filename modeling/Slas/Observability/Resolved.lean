/-
  Slas.Observability.Resolved

  Resolved means closed: a resolved item closes its alert, and leaves the others alone, exactly
  when at most one entry of it is open and no other alert's entry with its text comes first:
  `closes_iff`.
-/

import Slas.Observability.Landed

namespace Slas

namespace Observability

namespace Channel

variable (C : Channel)

/-- What holds of each item that is handled: those after one that raises are not. -/
def Each (P : List Alert → Time × Item → Prop) : List Alert → List (Time × Item) → Prop
  | _, [] => True
  | alerts, x :: items => P alerts x ∧
      ∀ after handled, C.ingestItem x.1 x.2 alerts = .ok (after, handled) → Each P after items

/-- A resolved item leaves no alert of its name and labels open, and every other one as it is. -/
def Closes (alerts : List Alert) (x : Time × Item) : Prop :=
  x.2.resolved = true → ∃ after handled, C.ingestItem x.1 x.2 alerts = .ok (after, handled) ∧
    (∀ a ∈ after, a.isOpen = true → ¬ x.2.Owns a) ∧ after.length = alerts.length ∧
    ∀ (i : Nat) a, alerts[i]? = some a → ¬ x.2.Owns a → after[i]? = some a

/-- At most one entry of the item is open; the first open one with its text is the item's own. -/
def OneOpen (alerts : List Alert) (x : Time × Item) : Prop :=
  x.2.resolved = true →
    (∀ a, alerts.find? (fun a => x.2.SameText a ∧ a.isOpen) = some a → x.2.Owns a) ∧
    ∀ (i j : Nat) a b, alerts[i]? = some a → alerts[j]? = some b → a.isOpen = true → b.isOpen = true →
      x.2.Owns a → x.2.Owns b → i = j

def ClosesAll (alerts : List Alert) : Call → Prop
  | .ingest payload => C.Each C.Closes alerts payload
  | _ => True

def OneOpenAll (alerts : List Alert) : Call → Prop
  | .ingest payload => C.Each OneOpen alerts payload
  | _ => True

/-! ## One item -/

/-- A fingerprint does not depend on the order of the labels. -/
theorem material_congr {name : String} {labels labels' : Labels} (h : labels.Same labels') :
    material name labels = material name labels' := by
  have hkeys : (Dict.keys labels.items).Perm (Dict.keys labels'.items) := by
    refine (List.perm_ext_iff_of_nodup labels.nodup labels'.nodup).mpr fun key => ?_
    rw [← Dict.lookup_isSome_iff, ← Dict.lookup_isSome_iff]
    exact Bool.eq_iff_iff.mp (congrArg Option.isSome (h key))
  have hsorted : (Dict.keys labels.items).insertionSort (· ≤ ·) =
      (Dict.keys labels'.items).insertionSort (· ≤ ·) := by
    refine List.Perm.eq_of_pairwise' (List.pairwise_insertionSort _ _)
      (List.pairwise_insertionSort _ _) ?_
    exact (List.perm_insertionSort _ _).trans (hkeys.trans (List.perm_insertionSort _ _).symm)
  unfold material
  rw [hsorted]
  simp only [h _]

variable {C} {alerts after : List Alert} {a : Alert} {item : Item} {now : Time}

theorem sameText_of_owns (h : item.Owns a) : item.SameText a := by
  unfold Item.SameText
  rw [h.1, material_congr h.2]

theorem closes_iff_oneOpen (hdigest : Function.Injective C.digest) (hs : C.Sound alerts)
    (x : Time × Item) : C.Closes alerts x ↔ OneOpen alerts x := by
  obtain ⟨now, item⟩ := x
  refine imp_congr_right fun hresolved => ?_
  dsimp only at hresolved ⊢
  rw [← find?_sameText hdigest hs fun a => a.isOpen = true]
  cases hack : acknowledge now (C.fingerprint item.name item.rest) "Prometheus (resolved)" alerts with
  | none =>
    have hitem : C.ingestItem now item alerts = .ok (alerts, none) := by
      rw [ingestItem, if_pos hresolved, hack]
    have hnone := First.update_eq_none_iff.mp hack
    -- no open entry has the fingerprint, so none is the item's
    have hclosed : ∀ a ∈ alerts, a.isOpen = true → ¬ item.Owns a := by
      intro a ha hopen howns
      have hid := (sameText_iff hdigest hs ha).mpr (sameText_of_owns howns)
      simpa [hid, hopen] using List.find?_eq_none.mp hnone a ha
    refine iff_of_true ⟨alerts, none, hitem, hclosed, rfl, fun _ _ h _ => h⟩ ⟨?_, ?_⟩
    · rw [hnone]
      intro _ h
      cases h
    · exact fun i j a b hi _ hopen _ howns _ =>
        absurd howns (hclosed a (List.mem_of_getElem? hi) hopen)
  | some r =>
    obtain ⟨after, handled⟩ := r
    have hitem : C.ingestItem now item alerts = .ok (after, some handled) := by
      rw [ingestItem, if_pos hresolved, hack]
    obtain ⟨i, a, hi, ha, rfl, rfl, hfound, hbefore⟩ := First.getElem?_of_update hack
    simp only [Bool.decide_and, Bool.decide_eq_true, Bool.and_eq_true, decide_eq_true_eq] at ha
    have hlt : i < alerts.length := (List.getElem?_eq_some_iff.mp hi).1
    rw [hfound]
    constructor
    · rintro ⟨after, handled, heq, hclosed, -, hothers⟩
      rw [hitem] at heq
      cases heq
      have howns : item.Owns a := by
        by_contra hnot
        have hsame := hothers i a hi hnot
        rw [List.getElem?_set_self hlt] at hsame
        have hack' := congrArg Alert.acknowledgedAt (Option.some.inj hsame)
        have hopen := ha.2
        rw [Alert.isOpen, ← hack'] at hopen
        cases hopen
      -- an open entry of the item at another place would still be there
      have hplace : ∀ j b, alerts[j]? = some b → b.isOpen = true → item.Owns b → j = i := by
        intro j b hj hopen hb
        by_contra hne
        refine hclosed b (List.mem_of_getElem? (i := j) ?_) hopen hb
        rw [List.getElem?_set_ne (Ne.symm hne), hj]
      refine ⟨fun b hb => Option.some.inj hb ▸ howns, fun j k b c hj hk hjo hko hjw hkw => ?_⟩
      exact (hplace j b hj hjo hjw).trans (hplace k c hk hko hkw).symm
    · rintro ⟨hfirst, hone⟩
      have howns : item.Owns a := hfirst a rfl
      refine ⟨_, _, hitem, fun b hb hopen hbowns => ?_, List.length_set, fun j b hj hnot => ?_⟩
      · obtain ⟨j, hj⟩ := List.mem_iff_getElem?.mp hb
        by_cases hij : i = j
        · subst hij
          rw [List.getElem?_set_self hlt] at hj
          rw [← Option.some.inj hj] at hopen
          cases hopen
        · rw [List.getElem?_set_ne hij] at hj
          exact hij (hone i j a b hi hj ha.2 hopen howns hbowns)
      · have hij : i ≠ j := by
          rintro rfl
          rw [hi] at hj
          exact hnot (Option.some.inj hj ▸ howns)
        rw [List.getElem?_set_ne hij, hj]

/-! ## Every run -/

theorem each_congr {P Q : List Alert → Time × Item → Prop}
    (h : ∀ alerts x, C.Sound alerts → (P alerts x ↔ Q alerts x)) (hs : C.Sound alerts)
    (items : List (Time × Item)) : C.Each P alerts items ↔ C.Each Q alerts items := by
  induction items generalizing alerts with
  | nil => exact Iff.rfl
  | cons x items ih =>
    refine and_congr (h alerts x hs) ?_
    refine forall_congr' fun after => forall_congr' fun handled => imp_congr_right fun hitem => ?_
    exact ih ((extends_ingestItem hitem).2 hs)

/-- **Resolved means closed** at every resolved item of a run exactly when at most one entry of
    it is open there, and the first open one with its text is its own. -/
theorem closes_iff (hdigest : Function.Injective C.digest) (calls : List Call) :
    Runs.Meets C.perform C.ClosesAll [] calls ↔ Runs.Meets C.perform C.OneOpenAll [] calls := by
  refine Runs.meets_congr (I := C.Sound) (fun s call hs _ => (extends_perform s call).2 hs)
    (fun s call hs => ?_) fun a ha => nomatch ha
  cases call with
  | ingest payload => exact each_congr (fun _ x hs => closes_iff_oneOpen hdigest hs x) hs payload
  | acknowledge now alertId by_ => exact Iff.rfl
  | raise_ now name severity sentence labels => exact Iff.rfl

end Channel

/-! ## A repeat after the window -/

/-- The GPU has cooled down. -/
def cooled : Item := { hot "critical" with status := "resolved" }

def HOUR : Time := 3600 * 1000000

theorem closes_iff_cooled :
    Runs.Meets hotChannel.perform hotChannel.ClosesAll []
      [.ingest [(0, hot "critical")], .ingest [(HOUR, cooled)]] := by
  refine (Channel.closes_iff (C := hotChannel) hotDigest_injective _).mpr ?_
  refine Runs.meets_cons.mpr ⟨⟨(fun h => nomatch h), fun _ _ _ => trivial⟩,
    Runs.meets_cons.mpr ⟨⟨fun _ => ⟨fun a ha => ?_, fun i j a b hi hj _ _ _ _ => ?_⟩,
      fun _ _ _ => trivial⟩, Runs.meets_nil⟩⟩
  · have hfound : (hotChannel.perform [] (.ingest [(0, hot "critical")])).map
        (fun a => (a.name, a.labels.items)) = [("SlasGpuHot", [("gpu", "0")])] := by decide +kernel
    have hmem := List.mem_map_of_mem (f := fun a : Alert => (a.name, a.labels.items))
      (List.mem_of_find?_eq_some ha)
    rw [hfound, List.mem_singleton, Prod.mk.injEq] at hmem
    refine ⟨hmem.1, fun key => ?_⟩
    rw [Labels.get, hmem.2]
    rfl
  · have hlength : (hotChannel.perform [] (.ingest [(0, hot "critical")])).length = 1 := by
      decide +kernel
    have hi' := (List.getElem?_eq_some_iff.mp hi).1
    have hj' := (List.getElem?_eq_some_iff.mp hj).1
    omega

/-- It fires again after five hours, in an entry of its own, and is resolved. -/
theorem stays_open :
    ¬ Runs.Meets hotChannel.perform hotChannel.ClosesAll []
      [.ingest [(0, hot "critical"), (5 * HOUR, hot "critical"), (6 * HOUR, cooled)]] := by
  intro h
  have hthird := ((((Runs.meets_cons.mp h).1.2 _ _ rfl).2 _ _ rfl)).1
  obtain ⟨after, handled, hitem, hclosed, -⟩ := hthird rfl
  have hsecond : after[1]?.map (fun a => (a.isOpen, a.name, a.labels.items)) =
      some (true, "SlasGpuHot", [("gpu", "0")]) := by
    have hok := congrArg (fun r => (Except.toOption r).map fun r =>
      r.1[1]?.map (fun a => (a.isOpen, a.name, a.labels.items))) hitem
    exact Option.some.inj (hok.symm.trans (by decide +kernel))
  obtain ⟨a, ha, hsame⟩ := Option.map_eq_some_iff.mp hsecond
  simp only [Prod.mk.injEq] at hsame
  refine hclosed a (List.mem_of_getElem? ha) hsame.1 ⟨hsame.2.1, fun key => ?_⟩
  rw [Labels.get, hsame.2.2]
  rfl

end Observability

end Slas
