/-
  Slas.Observability.Landed

  No alert is lost or merged: when exactly each item of Alertmanager's payloads lands in an open
  entry of its own name and labels, of at least its severity: `lands_iff`.
-/

import Mathlib.Data.List.Find
import Slas.Observability.Alerts

namespace Slas

namespace Observability

/-! ## Calls of the channel -/

inductive Call where
  | ingest (payload : List (Time × Item))
  | acknowledge (now : Time) (alertId by_ : String)
  /-- An alert of the platform itself. -/
  | raise_ (now : Time) (name : String) (severity : Severity) (sentence : String) (labels : Labels)

namespace Channel

variable (C : Channel)

/-- What is kept after an item. -/
def afterItem (alerts : List Alert) (x : Time × Item) : List Alert :=
  match C.ingestItem x.1 x.2 alerts with
  | .ok (after, _) => after
  | .error _ => alerts

/-- What is kept after a call. -/
def perform (alerts : List Alert) : Call → List Alert
  | .ingest payload => (C.ingest payload alerts).1
  | .acknowledge now alertId by_ =>
    match acknowledge now alertId by_ alerts with
    | some (after, _) => after
    | none => alerts
  | .raise_ now name severity sentence labels =>
    match C.raise_ now name severity sentence .platform labels alerts with
    | .ok (after, _) => after
    | .error _ => alerts

end Channel

/-- An alert of exactly the item's name and labels. -/
def Item.Owns (item : Item) (a : Alert) : Prop := a.name = item.name ∧ a.labels.Same item.rest

/-- An open one, of at least its severity. -/
def Item.Reported (item : Item) (alerts : List Alert) : Prop :=
  ∃ a ∈ alerts, a.isOpen = true ∧ item.Owns a ∧ item.severity.rank ≤ a.severity.rank

/-- An alert whose fingerprint is taken of the same text. -/
def Item.SameText (item : Item) (a : Alert) : Prop :=
  material a.name a.labels = material item.name item.rest

instance (item : Item) (a : Alert) : Decidable (item.SameText a) :=
  inferInstanceAs (Decidable (material a.name a.labels = material item.name item.rest))

namespace Channel

variable (C : Channel)

/-- The item is handled without raising, in an entry of its own; a firing one is reported. -/
def Lands (alerts : List Alert) (x : Time × Item) : Prop :=
  ∃ after handled, C.ingestItem x.1 x.2 alerts = .ok (after, handled) ∧
    (∀ a ∈ handled, x.2.Owns a) ∧ (x.2.resolved = false → x.2.Reported after)

/-- No item of a payload is lost or merged. -/
def LandsAll (alerts : List Alert) : Call → Prop
  | .ingest payload =>
    (∃ handled, (C.ingest payload alerts).2 = .ok handled) ∧
      Runs.Meets C.afterItem C.Lands alerts payload
  | _ => True

/-- The open entry with the item's text that is reached first is the item's own.  A firing item
    has a name and no label that is named like a parameter; where that entry was seen within the
    window, one of the item's own has at least its severity. -/
def Clear (alerts : List Alert) (x : Time × Item) : Prop :=
  if x.2.resolved then ∀ a, alerts.find? (fun a => x.2.SameText a ∧ a.isOpen) = some a → x.2.Owns a
  else
    (∀ parameter ∈ PARAMETERS, x.2.rest.get parameter = none) ∧ x.2.name ≠ "" ∧
      ∀ a, alerts.find? (fun a => x.2.SameText a ∧ a.isOpen ∧ x.1 - a.lastSeenAt ≤ C.dedupeWindow) =
        some a → x.2.Owns a ∧ x.2.Reported alerts

def ClearAll (alerts : List Alert) : Call → Prop
  | .ingest payload => Runs.Meets C.afterItem C.Clear alerts payload
  | _ => True

/-! ## Entries keep what they are -/

/-- Fingerprints are those of the name and labels, and no name is empty. -/
def Sound (alerts : List Alert) : Prop :=
  ∀ a ∈ alerts, a.id = C.fingerprint a.name a.labels ∧ a.name ≠ ""

/-- What an entry keeps for ever. -/
def identity (a : Alert) : String × String × Labels := (a.id, a.name, a.labels)

/-- The entries keep their places and identities; what comes is sound. -/
def Extends (alerts after : List Alert) : Prop :=
  alerts.map identity <+: after.map identity ∧ (C.Sound alerts → C.Sound after)

variable {C} {alerts after : List Alert} {a : Alert} {item : Item} {now : Time}

theorem Extends.refl : C.Extends alerts alerts := ⟨List.prefix_rfl, id⟩

theorem Extends.trans {more : List Alert} (h : C.Extends alerts after) (h' : C.Extends after more) :
    C.Extends alerts more :=
  ⟨h.1.trans h'.1, h'.2 ∘ h.2⟩

theorem sound_of_map (h : after.map identity = alerts.map identity) (hs : C.Sound alerts) :
    C.Sound after := by
  intro a ha
  have hmem : identity a ∈ alerts.map identity := h ▸ List.mem_map_of_mem ha
  obtain ⟨b, hb, heq⟩ := List.mem_map.mp hmem
  have hb' := hs b hb
  simp only [identity, Prod.mk.injEq] at heq
  rwa [heq.1, heq.2.1, heq.2.2] at hb'

theorem extends_update {p : Alert → Bool} {f : Alert → Alert}
    (h : First.update p f alerts = some (after, a)) (hf : ∀ a, identity (f a) = identity a) :
    C.Extends alerts after := by
  have hmap := First.map_of_update hf h
  exact ⟨hmap ▸ List.prefix_rfl, sound_of_map hmap⟩

theorem extends_acknowledge {alertId by_ : String}
    (h : acknowledge now alertId by_ alerts = some (after, a)) : C.Extends alerts after :=
  extends_update h fun _ => rfl

theorem extends_raise_ {name sentence : String} {severity : Severity} {source : Source}
    {labels : Labels}
    (h : C.raise_ now name severity sentence source labels alerts = .ok (after, a)) :
    C.Extends alerts after := by
  unfold raise_ at h
  split at h
  · cases h
  · dsimp only at h
    split at h
    · rename_i found hfound
      cases h
      exact extends_update hfound fun _ => rfl
    · split_ifs at h with hname
      cases h
      refine ⟨by simp, fun hs b hb => ?_⟩
      rcases List.mem_append.mp hb with hb | hb
      · exact hs b hb
      · rw [List.mem_singleton.mp hb]
        exact ⟨rfl, hname⟩

theorem extends_ingestItem {handled : Option Alert}
    (h : C.ingestItem now item alerts = .ok (after, handled)) : C.Extends alerts after := by
  unfold ingestItem at h
  split_ifs at h
  · split at h
    · cases h
      exact Extends.refl
    · rename_i hacknowledged
      cases h
      exact extends_acknowledge hacknowledged
  · cases hraised : C.raise_ now item.name item.severity item.sentence .alertmanager item.rest alerts
      with
    | error e =>
      rw [hraised] at h
      cases h
    | ok r =>
      rw [hraised] at h
      cases h
      exact extends_raise_ hraised

theorem extends_ingest (items : List (Time × Item)) (alerts : List Alert) :
    C.Extends alerts (C.ingest items alerts).1 := by
  induction items generalizing alerts with
  | nil => exact Extends.refl
  | cons x items ih =>
    obtain ⟨now, item⟩ := x
    rw [ingest]
    split
    · exact Extends.refl
    · rename_i hitem
      exact (extends_ingestItem hitem).trans (ih _)

theorem extends_perform (alerts : List Alert) (call : Call) :
    C.Extends alerts (C.perform alerts call) := by
  cases call with
  | ingest payload => exact extends_ingest payload alerts
  | acknowledge now alertId by_ =>
    rw [perform]
    split
    · rename_i hacknowledged
      exact extends_acknowledge hacknowledged
    · exact Extends.refl
  | raise_ now name severity sentence labels =>
    rw [perform]
    split
    · rename_i hraised
      exact extends_raise_ hraised
    · exact Extends.refl

theorem extends_afterItem (alerts : List Alert) (x : Time × Item) :
    C.Extends alerts (C.afterItem alerts x) := by
  unfold afterItem
  split
  · rename_i hitem
    exact extends_ingestItem hitem
  · exact Extends.refl

/-! ## One item -/

theorem sameText_iff (hdigest : Function.Injective C.digest) (hs : C.Sound alerts) (ha : a ∈ alerts) :
    a.id = C.fingerprint item.name item.rest ↔ item.SameText a := by
  rw [(hs a ha).1]
  exact hdigest.eq_iff

/-- The search by fingerprint is one by the text. -/
theorem find?_sameText (hdigest : Function.Injective C.digest) (hs : C.Sound alerts)
    (r : Alert → Prop) [DecidablePred r] :
    alerts.find? (fun a => a.id = C.fingerprint item.name item.rest ∧ r a) =
      alerts.find? fun a => item.SameText a ∧ r a := by
  refine List.find?_congr fun a ha => ?_
  rw [decide_eq_decide, sameText_iff hdigest hs ha]

theorem same_refl (labels : Labels) : labels.Same labels := fun _ => rfl

/-- A parameter that is a label. -/
theorem find?_parameters_eq_none_iff {labels : Labels} :
    (PARAMETERS.find? fun parameter => (labels.get parameter).isSome) = none ↔
      ∀ parameter ∈ PARAMETERS, labels.get parameter = none := by
  simp only [List.find?_eq_none, Option.not_isSome_iff_eq_none]

/-- What an update leaves reported. -/
theorem reported_update {p : Alert → Bool} {f : Alert → Alert}
    (h : First.update p f alerts = some (after, a))
    (hf : ∀ a, (f a).isOpen = a.isOpen ∧ (f a).name = a.name ∧ (f a).labels = a.labels ∧
      (f a).severity = a.severity) :
    item.Reported after ↔ item.Reported alerts := by
  have hmap := First.map_of_update (g := fun a => (a.isOpen, a.name, a.labels, a.severity))
    (fun a => by simp [hf a]) h
  have hmem : ∀ l l' : List Alert, l.map (fun a => (a.isOpen, a.name, a.labels, a.severity)) =
      l'.map (fun a => (a.isOpen, a.name, a.labels, a.severity)) →
      item.Reported l → item.Reported l' := by
    rintro l l' heq ⟨b, hb, hopen, howns, hrank⟩
    have hin : (b.isOpen, b.name, b.labels, b.severity) ∈
        l'.map fun a => (a.isOpen, a.name, a.labels, a.severity) := heq ▸ List.mem_map_of_mem hb
    obtain ⟨c, hc, hsame⟩ := List.mem_map.mp hin
    simp only [Prod.mk.injEq] at hsame
    obtain ⟨h₁, h₂, h₃, h₄⟩ := hsame
    exact ⟨c, hc, h₁.trans hopen, ⟨h₂.trans howns.1, h₃ ▸ howns.2⟩, h₄ ▸ hrank⟩
  exact ⟨hmem _ _ hmap, hmem _ _ hmap.symm⟩

theorem lands_of_ok {handled : Option Alert}
    (h : C.ingestItem now item alerts = .ok (after, handled)) :
    C.Lands alerts (now, item) ↔
      (∀ a ∈ handled, item.Owns a) ∧ (item.resolved = false → item.Reported after) := by
  constructor
  · rintro ⟨after', handled', heq, hlands⟩
    rw [h] at heq
    cases heq
    exact hlands
  · exact fun hlands => ⟨after, handled, h, hlands⟩

theorem not_lands_of_error {e : Raised} (h : C.ingestItem now item alerts = .error e) :
    ¬ C.Lands alerts (now, item) := by
  rintro ⟨after, handled, heq, -⟩
  rw [h] at heq
  cases heq

theorem lands_iff_of_resolved (hdigest : Function.Injective C.digest) (hs : C.Sound alerts)
    (hresolved : item.resolved = true) : C.Lands alerts (now, item) ↔ C.Clear alerts (now, item) := by
  have hclear : C.Clear alerts (now, item) ↔
      ∀ a, alerts.find? (fun a => item.SameText a ∧ a.isOpen) = some a → item.Owns a := by
    rw [Clear, if_pos hresolved]
  have hopen : ¬ item.resolved = false := by simp [hresolved]
  rw [hclear, ← find?_sameText hdigest hs fun a => a.isOpen = true]
  cases hack : acknowledge now (C.fingerprint item.name item.rest) "Prometheus (resolved)" alerts with
  | none =>
    have hitem : C.ingestItem now item alerts = .ok (alerts, none) := by
      rw [ingestItem, if_pos hresolved, hack]
    rw [lands_of_ok hitem, First.update_eq_none_iff.mp hack]
    simp [hopen]
  | some r =>
    have hitem : C.ingestItem now item alerts = .ok (r.1, some r.2) := by
      rw [ingestItem, if_pos hresolved, hack]
    obtain ⟨a, hfound, hr⟩ := First.find?_of_update hack
    have howns : item.Owns r.2 ↔ item.Owns a := by
      rw [hr]
      exact Iff.rfl
    rw [lands_of_ok hitem, hfound]
    simp [hopen, howns]

/-- How an alert is raised: it folds into the first entry it may, or is a new one. -/
theorem raise_cases (C : Channel) (now : Time) (name sentence : String) (severity : Severity)
    (source : Source) (alerts : List Alert) {labels : Labels}
    (hlabels : ∀ parameter ∈ PARAMETERS, labels.get parameter = none) :
    (∃ a after, alerts.find? (C.folds now (C.fingerprint name labels)) = some a ∧
      First.update (C.folds now (C.fingerprint name labels))
        (fun a => { a with count := a.count + 1, lastSeenAt := now, sentence }) alerts =
          some (after, { a with count := a.count + 1, lastSeenAt := now, sentence }) ∧
      C.raise_ now name severity sentence source labels alerts =
        .ok (after, { a with count := a.count + 1, lastSeenAt := now, sentence })) ∨
    (alerts.find? (C.folds now (C.fingerprint name labels)) = none ∧
      C.raise_ now name severity sentence source labels alerts =
        if name = "" then .error .validationError
        else .ok (alerts ++ [⟨C.fingerprint name labels, name, severity, sentence, labels, source,
            now, now, 1, none, none⟩],
          ⟨C.fingerprint name labels, name, severity, sentence, labels, source, now, now, 1, none,
            none⟩)) := by
  unfold raise_
  rw [find?_parameters_eq_none_iff.mpr hlabels]
  dsimp only
  cases hupdate : First.update (C.folds now (C.fingerprint name labels))
      (fun a => { a with count := a.count + 1, lastSeenAt := now, sentence }) alerts with
  | none => exact Or.inr ⟨First.update_eq_none_iff.mp hupdate, rfl⟩
  | some r =>
    obtain ⟨after, b⟩ := r
    obtain ⟨a, hfound, rfl⟩ := First.find?_of_update hupdate
    exact Or.inl ⟨a, after, hfound, rfl, rfl⟩

theorem lands_iff_of_firing (hdigest : Function.Injective C.digest) (hs : C.Sound alerts)
    (hfiring : item.resolved = false) : C.Lands alerts (now, item) ↔ C.Clear alerts (now, item) := by
  have hnot : ¬ item.resolved = true := by simp [hfiring]
  have hclear : C.Clear alerts (now, item) ↔
      (∀ parameter ∈ PARAMETERS, item.rest.get parameter = none) ∧ item.name ≠ "" ∧
        ∀ a, alerts.find? (C.folds now (C.fingerprint item.name item.rest)) = some a →
          item.Owns a ∧ item.Reported alerts := by
    rw [Clear, if_neg hnot, ← find?_sameText hdigest hs fun a =>
      a.isOpen = true ∧ now - a.lastSeenAt ≤ C.dedupeWindow]
    exact Iff.rfl
  have hitem : C.ingestItem now item alerts =
      (C.raise_ now item.name item.severity item.sentence .alertmanager item.rest alerts).map
        fun r => (r.1, some r.2) := by
    rw [ingestItem, if_neg hnot]
  rw [hclear]
  by_cases hlabels : ∀ parameter ∈ PARAMETERS, item.rest.get parameter = none
  · rcases raise_cases C now item.name item.sentence item.severity .alertmanager alerts hlabels with
      ⟨a, after, hfound, hupdate, hraise⟩ | ⟨hnone, hraise⟩
    · -- folded into an entry
      rw [hraise] at hitem
      have hreported : item.Reported after ↔ item.Reported alerts :=
        reported_update hupdate fun a => ⟨rfl, rfl, rfl, rfl⟩
      have hname : item.Owns a → item.name ≠ "" := fun howns =>
        howns.1 ▸ (hs a (List.mem_of_find?_eq_some hfound)).2
      rw [lands_of_ok hitem, hfound]
      constructor
      · rintro ⟨howns, hrep⟩
        have ha := howns _ (Option.mem_some_self _)
        refine ⟨hlabels, hname ha, fun b hb => ?_⟩
        obtain rfl := Option.some.inj hb
        exact ⟨ha, hreported.mp (hrep hfiring)⟩
      · rintro ⟨-, -, hall⟩
        obtain ⟨ha, hrep⟩ := hall a rfl
        refine ⟨fun b hb => ?_, fun _ => hreported.mpr hrep⟩
        obtain rfl := Option.some.inj hb
        exact ha
    · -- a new entry
      rw [hraise] at hitem
      by_cases hname : item.name = ""
      · rw [if_pos hname] at hitem
        exact iff_of_false (not_lands_of_error hitem) fun h => h.2.1 hname
      · rw [if_neg hname] at hitem
        rw [lands_of_ok hitem, hnone]
        refine iff_of_true ⟨fun b hb => ?_, fun _ => ?_⟩ ⟨hlabels, hname, fun _ hb => nomatch hb⟩
        · obtain rfl := Option.some.inj hb
          exact ⟨rfl, same_refl _⟩
        · exact ⟨_, List.mem_append_right _ List.mem_cons_self, rfl, ⟨rfl, same_refl _⟩, le_rfl⟩
  · obtain ⟨parameter, hparameter⟩ :=
      Option.ne_none_iff_exists'.mp (mt find?_parameters_eq_none_iff.mp hlabels)
    have herror : C.ingestItem now item alerts = .error (.typeError parameter) := by
      rw [hitem, raise_, hparameter]
      rfl
    exact iff_of_false (not_lands_of_error herror) fun h => hlabels h.1

/-- **Nothing is lost or merged** at an item exactly when the way is clear. -/
theorem lands_iff_clear (hdigest : Function.Injective C.digest) (hs : C.Sound alerts)
    (x : Time × Item) : C.Lands alerts x ↔ C.Clear alerts x := by
  cases hresolved : x.2.resolved with
  | true => exact lands_iff_of_resolved hdigest hs hresolved
  | false => exact lands_iff_of_firing hdigest hs hresolved

/-! ## Every run -/

theorem ingest_returns {items : List (Time × Item)}
    (h : Runs.Meets C.afterItem C.Lands alerts items) :
    ∃ handled, (C.ingest items alerts).2 = .ok handled := by
  induction items generalizing alerts with
  | nil => exact ⟨[], rfl⟩
  | cons x items ih =>
    obtain ⟨now, item⟩ := x
    obtain ⟨⟨after, handled, hitem, -⟩, hrest⟩ := Runs.meets_cons.mp h
    have hafter : C.afterItem alerts (now, item) = after := by rw [afterItem, hitem]
    rw [hafter] at hrest
    obtain ⟨rest, hreturns⟩ := ih hrest
    refine ⟨handled.toList ++ rest, ?_⟩
    rw [ingest, hitem]
    dsimp only
    rw [hreturns]
    rfl

theorem landsAll_iff (hdigest : Function.Injective C.digest) (hs : C.Sound alerts) (call : Call) :
    C.LandsAll alerts call ↔ C.ClearAll alerts call := by
  cases call with
  | ingest payload =>
    have hitems : Runs.Meets C.afterItem C.Lands alerts payload ↔
        Runs.Meets C.afterItem C.Clear alerts payload :=
      Runs.meets_congr (fun s x hs _ => (extends_afterItem s x).2 hs)
        (fun s x hs => lands_iff_clear hdigest hs x) hs
    exact ⟨fun h => hitems.mp h.2, fun h => ⟨ingest_returns (hitems.mpr h), hitems.mpr h⟩⟩
  | acknowledge now alertId by_ => exact Iff.rfl
  | raise_ now name severity sentence labels => exact Iff.rfl

/-- **No alert is lost or merged** in a run exactly when the way of each item is clear; an entry
    keeps its place, its name and its labels. -/
theorem lands_iff (hdigest : Function.Injective C.digest) (calls : List Call) :
    (Runs.Meets C.perform C.LandsAll [] calls ↔ Runs.Meets C.perform C.ClearAll [] calls) ∧
      ∀ alerts call, alerts.map identity <+: (C.perform alerts call).map identity := by
  refine ⟨Runs.meets_congr (I := C.Sound) (fun s call hs _ => (extends_perform s call).2 hs)
    (fun s call hs => landsAll_iff hdigest hs call) (fun a ha => nomatch ha), ?_⟩
  exact fun alerts call => (extends_perform alerts call).1

end Channel

/-! ## Payloads that lose an alert -/

/-- The fingerprint of a hot GPU's alert is its real one; other texts stand for themselves. -/
def hotDigest (text : String) : String :=
  if text = "SlasGpuHot|gpu=0" then "ec09ff234678e7a1" else "|" ++ text

theorem hotDigest_injective : Function.Injective hotDigest := by
  intro a b h
  have hhead : ∀ text : String, "ec09ff234678e7a1" ≠ "|" ++ text := by
    intro text heq
    have hchars := congrArg String.toList heq
    simp [String.toList_append] at hchars
  unfold hotDigest at h
  split_ifs at h with ha hb hb
  · exact ha.trans hb.symm
  · exact absurd h (hhead b)
  · exact absurd h.symm (hhead a)
  · have hchars := congrArg String.toList h
    rw [String.toList_append, String.toList_append] at hchars
    exact String.toList_injective (List.append_cancel_left hchars)

def hotChannel : Channel := { digest := hotDigest }

/-- A GPU is hot. -/
def hot (severity : String) : Item where
  labels := ⟨[("alertname", "SlasGpuHot"), ("severity", severity), ("gpu", "0")],
    by simp [Dict.keys]⟩
  annotations := ⟨[], by decide⟩

theorem lands_iff_hot :
    Runs.Meets hotChannel.perform hotChannel.LandsAll [] [.ingest [(0, hot "critical")]] := by
  refine ((Channel.lands_iff (C := hotChannel) hotDigest_injective _).1).mpr ?_
  refine Runs.meets_cons.mpr ⟨Runs.meets_cons.mpr ⟨?_, Runs.meets_nil⟩, Runs.meets_nil⟩
  exact ⟨by decide +kernel, by decide +kernel, fun a ha => nomatch ha⟩

/-- A label may be called like a parameter. -/
def named : Item where
  labels := ⟨[("alertname", "SlasGpuHot"), ("name", "gpu0")], by decide⟩
  annotations := ⟨[], by decide⟩

/-- One label whose value looks like two. -/
def oneLabel : Item where
  labels := ⟨[("alertname", "SlasGpuHot"), ("gpu", "0|host=a")], by decide⟩
  annotations := ⟨[], by decide⟩

def twoLabels : Item where
  labels := ⟨[("alertname", "SlasGpuHot"), ("gpu", "0"), ("host", "a")], by decide⟩
  annotations := ⟨[], by decide⟩

/-- The third payload merges two alerts, and the second one loses a severity. -/
theorem lost_alerts :
    ¬ Runs.Meets hotChannel.perform hotChannel.LandsAll [] [.ingest [(0, named)]] ∧
    ¬ Runs.Meets hotChannel.perform hotChannel.LandsAll []
      [.ingest [(0, hot "warning"), (1, hot "critical")]] ∧
    ¬ Runs.Meets hotChannel.perform hotChannel.LandsAll []
      [.ingest [(0, oneLabel)], .ingest [(1, twoLabels)]] := by
  refine ⟨fun h => ?_, fun h => ?_, fun h => ?_⟩
  · obtain ⟨handled, hreturns⟩ := (Runs.meets_cons.mp h).1.1
    have hraises : (hotChannel.ingest [(0, named)] []).2 = .error (.typeError "name") := rfl
    rw [hraises] at hreturns
    cases hreturns
  · -- the repeat is folded, and the entry stays a warning
    obtain ⟨hitems, -⟩ := Runs.meets_cons.mp h
    obtain ⟨-, hsecond⟩ := Runs.meets_cons.mp hitems.2
    obtain ⟨hlands, -⟩ := Runs.meets_cons.mp hsecond
    obtain ⟨after, handled, hitem, -, hreported⟩ := hlands
    obtain ⟨a, ha, -, -, hrank⟩ := hreported rfl
    have hseverities : after.map (·.severity) = [.warning] := by
      have hok := congrArg (fun r => (Except.toOption r).map fun r => r.1.map (·.severity)) hitem
      exact Option.some.inj (hok.symm.trans (by decide +kernel))
    have hwarning : a.severity = .warning :=
      List.mem_singleton.mp (hseverities ▸ List.mem_map_of_mem ha)
    rw [hwarning] at hrank
    exact absurd hrank (by decide)
  · -- the second alert is folded into the first
    obtain ⟨-, hsecond⟩ := Runs.meets_cons.mp h
    obtain ⟨hitems, -⟩ := Runs.meets_cons.mp hsecond
    obtain ⟨hlands, -⟩ := Runs.meets_cons.mp hitems.2
    obtain ⟨after, handled, hitem, howns, -⟩ := hlands
    have hhosts : handled.map (·.labels.get "host") = some none := by
      have hok := congrArg (fun r => (Except.toOption r).map fun r =>
        r.2.map (·.labels.get "host")) hitem
      exact Option.some.inj (hok.symm.trans (by decide +kernel))
    obtain ⟨a, rfl, hhost⟩ := Option.map_eq_some_iff.mp hhosts
    have hsame := (howns a rfl).2 "host"
    rw [hhost] at hsame
    exact absurd hsame (by decide)

end Observability

end Slas
