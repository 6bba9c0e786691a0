/-
  Slas.Skills.Rendering

  What rendering does, for any function the values are looked up with.  A text goes
  through when each of its references is known or late (`render_ok_iff`), what it
  becomes depends on what its references name (`render_congr`), and a text with no
  reference stays as it is (`render_still`).
-/

import Slas.Skills.Templates

namespace Slas

open Placeholders (Piece scan flatten refs plain fillIn)

namespace Skills

variable {P : Python} {look look' : String → Option Json} {source source' : String}

/-! ## The pieces of a text -/

theorem readPlaceholder_other {c : Char} (h : c ≠ '\x7b') (cs : List Char) :
    (placeholder P).read (c :: cs) = none := by
  change readPlaceholder P (c :: cs) = none
  unfold readPlaceholder
  split
  · rename_i heq
    exact absurd (List.cons.inj heq).1 h
  · rfl

/-- Characters that are no brace are read as they stand. -/
theorem scan_other {cs : List Char} (h : '\x7b' ∉ cs) (ds : List Char) :
    scan (placeholder P) (cs ++ ds) = plain cs ++ scan (placeholder P) ds :=
  Placeholders.scan_plain_append
    (fun _ hc ds => readPlaceholder_other (fun heq => h (heq ▸ hc)) ds) ds

theorem brace_not_mem_of_isSpace {cs : List Char} (h : ∀ c ∈ cs, isSpace c = true) :
    '\x7b' ∉ cs := by
  intro hin
  have hspace := h _ hin
  revert hspace
  decide

/-- A text without the space around it. -/
theorem stripChars_parts (cs : List Char) : ∃ lead trail, cs = lead ++ stripChars cs ++ trail ∧
    (∀ c ∈ lead, isSpace c = true) ∧ ∀ c ∈ trail, isSpace c = true := by
  refine ⟨cs.takeWhile isSpace, (cs.dropWhile isSpace).rtakeWhile isSpace, ?_,
    fun c hc => List.mem_takeWhile_imp hc, fun c hc => List.mem_rtakeWhile_imp hc⟩
  rw [stripChars, List.append_assoc, List.rdropWhile_append_rtakeWhile,
    List.takeWhile_append_dropWhile]

/-- A text that is one placeholder, with space around it. -/
theorem scan_whole {text name : String} (h : whole P text = some name) :
    ∃ lead raw trail, scan (placeholder P) text.toList =
        plain lead ++ .ref raw name :: plain trail ∧
      (∀ c ∈ lead, isSpace c = true) ∧ ∀ c ∈ trail, isSpace c = true := by
  obtain ⟨lead, trail, htext, hlead, htrail⟩ := stripChars_parts text.toList
  unfold whole at h
  split at h
  · rename_i raw name' hread
    split at h
    · rename_i hraw
      cases h
      refine ⟨lead, raw, trail, ?_, hlead, htrail⟩
      have hrest : (placeholder P).read (raw ++ trail) = some (raw, name) :=
        (placeholder P).decides hread (List.prefix_append raw trail)
      rw [htext, ← hraw, List.append_assoc, scan_other (brace_not_mem_of_isSpace hlead),
        Placeholders.scan_ref hrest]
      have hplain := scan_other (P := P) (brace_not_mem_of_isSpace htrail) []
      rw [List.append_nil] at hplain
      rw [hplain]
      simp
    · cases h
  · cases h

theorem references_whole {text name : String} (h : whole P text = some name) :
    references P text = [name] := by
  obtain ⟨lead, raw, trail, hscan, -⟩ := scan_whole h
  rw [references, hscan]
  simp [refs, plain, List.filterMap_map]

theorem mem_references {text name : String} :
    name ∈ references P text ↔ ∃ raw, Piece.ref raw name ∈ scan (placeholder P) text.toList := by
  simp only [references, refs, List.mem_filterMap]
  constructor
  · rintro ⟨piece, hin, hname⟩
    cases piece with
    | char c => cases hname
    | ref raw a =>
      cases hname
      exact ⟨raw, hin⟩
  · rintro ⟨raw, hin⟩
    exact ⟨_, hin, rfl⟩

/-! ## A text -/

/-- What a text is filled with, placeholder by placeholder. -/
def fillText (P : Python) (look : String → Option Json) (source : String) (text : List Char) :
    Except ThreePartMessage (List Char) :=
  Placeholders.subst (fill P look source) (scan (placeholder P) text)

/-- The texts of the values that are known. -/
def known (P : Python) (look : String → Option Json) (name : String) : Option (List Char) :=
  (look name).map fun value => (P.str value).toList

theorem render_of_not_whole {text : String} (h : whole P text = none) :
    render P look source text =
      (fillText P look source text.toList).map fun cs => .str (String.ofList cs) := by
  simp only [render, h, fillText]

/-- How a name is filled. -/
theorem fill_of_known {raw : List Char} {name : String}
    (h : isLate name = true ∨ (look name).isSome) :
    fill P look source raw name = .ok ((known P look name).getD raw) := by
  unfold fill known
  cases hlook : look name with
  | some value => rfl
  | none =>
    rw [hlook] at h
    simp [h.resolve_right (by simp)]

theorem fill_ok_iff {raw : List Char} {name : String} :
    (∃ cs, fill P look source raw name = .ok cs) ↔ isLate name = true ∨ (look name).isSome := by
  constructor
  · rintro ⟨cs, h⟩
    unfold fill at h
    cases hlook : look name with
    | some value => exact Or.inr rfl
    | none =>
      simp only [hlook] at h
      split at h
      · exact Or.inl ‹_›
      · cases h
  · exact fun h => ⟨_, fill_of_known h⟩

/-- A text that goes through has its known references filled in, and the others kept. -/
theorem fillText_eq {text : List Char}
    (h : ∀ raw name, Piece.ref raw name ∈ scan (placeholder P) text →
      isLate name = true ∨ (look name).isSome) :
    fillText P look source text =
      .ok (flatten (fillIn (known P look) (scan (placeholder P) text))) :=
  Placeholders.subst_eq_flatten fun raw name hin => fill_of_known (h raw name hin)

/-- A text goes through when each of its references is late or known. -/
theorem render_ok_iff {text : String} : (∃ value, render P look source text = .ok value) ↔
    ∀ name ∈ references P text, isLate name = true ∨ (look name).isSome := by
  cases hwhole : whole P text with
  | some name =>
    rw [references_whole hwhole]
    simp only [render, hwhole, List.mem_singleton, forall_eq]
    cases hlook : look name with
    | none => cases hlate : isLate name <;> simp
    | some value => simp
  | none =>
    have hmap : (∃ value, render P look source text = .ok value) ↔
        ∃ cs, fillText P look source text.toList = .ok cs := by
      rw [render_of_not_whole hwhole]
      cases fillText P look source text.toList <;> simp [Except.map]
    rw [hmap, fillText, Placeholders.subst_ok_iff]
    simp only [fill_ok_iff, mem_references]
    constructor
    · rintro h name ⟨raw, hin⟩
      exact h raw name hin
    · intro h raw name hin
      exact h name ⟨raw, hin⟩

/-- What a text that is no placeholder becomes. -/
theorem render_eq_of_not_whole {text : String} (hwhole : whole P text = none)
    (h : ∀ name ∈ references P text, isLate name = true ∨ (look name).isSome) :
    render P look source text = .ok (.str (String.ofList
      (flatten (fillIn (known P look) (scan (placeholder P) text.toList))))) := by
  rw [render_of_not_whole hwhole,
    fillText_eq fun raw name hin => h name (mem_references.mpr ⟨raw, hin⟩)]
  rfl

/-- What a text becomes depends on what its references name. -/
theorem render_congr {text : String} (h : ∀ name ∈ references P text, look name = look' name)
    {value : Json} (hv : render P look source text = .ok value) :
    render P look' source' text = .ok value := by
  have hok : ∀ name ∈ references P text, isLate name = true ∨ (look name).isSome :=
    render_ok_iff.mp ⟨value, hv⟩
  cases hwhole : whole P text with
  | some name =>
    have hin : name ∈ references P text := by simp [references_whole hwhole]
    simp only [render, hwhole] at hv ⊢
    rw [← h name hin]
    cases hlook : look name with
    | some found => simpa only [hlook] using hv
    | none =>
      have hlate : isLate name = true := by
        have hname := hok name hin
        rw [hlook] at hname
        exact hname.resolve_right (by simp)
      simpa only [hlook, hlate, if_true] using hv
  | none =>
    have hok' : ∀ name ∈ references P text, isLate name = true ∨ (look' name).isSome := by
      intro name hin
      rw [← h name hin]
      exact hok name hin
    have hfill : fillIn (known P look) (scan (placeholder P) text.toList) =
        fillIn (known P look') (scan (placeholder P) text.toList) := by
      refine Placeholders.fillIn_congr fun raw name hin => ?_
      unfold known
      rw [h name (mem_references.mpr ⟨raw, hin⟩)]
    rw [render_eq_of_not_whole hwhole hok] at hv
    rw [render_eq_of_not_whole hwhole hok', ← hfill]
    exact hv

/-- A text without references stays as it is. -/
theorem render_still {text : String} (h : references P text = []) :
    render P look source text = .ok (.str text) := by
  have hwhole : whole P text = none := by
    cases hw : whole P text with
    | none => rfl
    | some name => simp [references_whole hw] at h
  have hpieces : fillIn (known P look) (scan (placeholder P) text.toList) =
      fillIn (fun _ => none) (scan (placeholder P) text.toList) := by
    refine Placeholders.fillIn_congr fun raw name hin => ?_
    have hname : name ∈ references P text := mem_references.mpr ⟨raw, hin⟩
    simp [h] at hname
  rw [render_eq_of_not_whole hwhole (by simp [h]), hpieces, Placeholders.fillIn_none,
    Placeholders.flatten_scan, String.ofList_toList]

/-! ## Values -/

mutual

/-- The texts in a value. -/
def texts : Json → List String
  | .str s => [s]
  | .arr xs => itemTexts xs
  | .obj kvs => fieldTexts kvs
  | _ => []

def itemTexts : List Json → List String
  | [] => []
  | x :: xs => texts x ++ itemTexts xs

def fieldTexts : Bindings → List String
  | [] => []
  | kv :: kvs => fieldTexts₁ kv ++ fieldTexts kvs

def fieldTexts₁ : String × Json → List String
  | (_, value) => texts value

end

mutual

/-- A value goes through when each of its texts does. -/
theorem renderValue_ok : ∀ {value value' : Json},
    renderValue P look source value = .ok value' →
    ∀ text ∈ texts value, ∃ v, render P look source text = .ok v
  | .str s, _, h => by
    intro text htext
    rw [texts, List.mem_singleton] at htext
    rw [htext]
    exact ⟨_, h⟩
  | .arr xs, _, h => by
    rw [renderValue] at h
    cases hxs : renderItems P look source xs with
    | error e => simp [hxs, Except.map] at h
    | ok ys => exact renderItems_ok hxs
  | .obj kvs, _, h => by
    rw [renderValue] at h
    cases hkvs : renderFields P look source kvs with
    | error e => simp [hkvs, Except.map] at h
    | ok kvs' => exact renderFields_ok hkvs
  | .null, _, _ => by simp [texts]
  | .bool _, _, _ => by simp [texts]
  | .num _, _, _ => by simp [texts]

theorem renderItems_ok : ∀ {xs ys : List Json}, renderItems P look source xs = .ok ys →
    ∀ text ∈ itemTexts xs, ∃ v, render P look source text = .ok v
  | [], _, _ => by simp [itemTexts]
  | x :: xs, _, h => by
    rw [renderItems] at h
    cases hx : renderValue P look source x with
    | error e => simp [hx] at h
    | ok y =>
      cases hxs : renderItems P look source xs with
      | error e => simp [hx, hxs, Except.map] at h
      | ok ys =>
        intro text htext
        rw [itemTexts] at htext
        rcases List.mem_append.mp htext with hin | hin
        · exact renderValue_ok hx text hin
        · exact renderItems_ok hxs text hin

theorem renderFields_ok : ∀ {kvs kvs' : Bindings}, renderFields P look source kvs = .ok kvs' →
    ∀ text ∈ fieldTexts kvs, ∃ v, render P look source text = .ok v
  | [], _, _ => by simp [fieldTexts]
  | kv :: kvs, _, h => by
    rw [renderFields] at h
    cases hkv : renderField P look source kv with
    | error e => simp [hkv] at h
    | ok kv' =>
      cases hkvs : renderFields P look source kvs with
      | error e => simp [hkv, hkvs, Except.map] at h
      | ok kvs' =>
        intro text htext
        rw [fieldTexts] at htext
        rcases List.mem_append.mp htext with hin | hin
        · exact renderField_ok hkv text hin
        · exact renderFields_ok hkvs text hin

theorem renderField_ok : ∀ {kv kv' : String × Json}, renderField P look source kv = .ok kv' →
    ∀ text ∈ fieldTexts₁ kv, ∃ v, render P look source text = .ok v
  | (key, value), _, h => by
    rw [renderField] at h
    cases hv : renderValue P look source value with
    | error e => simp [hv, Except.map] at h
    | ok value' => exact renderValue_ok hv

end

/-- A field is what its value is rendered to, under the same key. -/
theorem lookup_renderFields (key : String) : ∀ {kvs kvs' : Bindings},
    renderFields P look source kvs = .ok kvs' →
    match kvs.lookup key with
    | none => kvs'.lookup key = none
    | some value => ∃ value', renderValue P look source value = .ok value' ∧
        kvs'.lookup key = some value'
  | [], _, h => by
    rw [renderFields] at h
    cases h
    rfl
  | (key', value) :: kvs, _, h => by
    rw [renderFields, renderField] at h
    cases hv : renderValue P look source value with
    | error e => simp [hv, Except.map] at h
    | ok value' =>
      cases hkvs : renderFields P look source kvs with
      | error e => simp [hv, hkvs, Except.map] at h
      | ok kvs' =>
        simp only [hv, hkvs, Except.map, Except.ok.injEq] at h
        subst h
        rw [List.lookup_cons, List.lookup_cons]
        cases hkey : key == key' with
        | true => exact ⟨value', hv, rfl⟩
        | false => exact lookup_renderFields key hkvs

end Skills

end Slas
