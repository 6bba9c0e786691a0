/-
  Slas.Skills.Handles

  Secret handles in arguments, and the secrets that take their place.

  The compiler marks a step when a handle stands anywhere in its arguments; the station
  replaces a text only when the whole of it is a handle that the batch names
  (`substitute`).  What was meant is that every handle is replaced wherever it stands
  (`replacedText`).  The two agree on a text that can be replaced (`Replaceable`), and on
  no other as long as the handles have no braces in them (`replaced_iff`).
-/

import Slas.Lib.Occurrences
import Slas.Skills.Rendering
import Slas.Skills.Risks

namespace Slas

open Placeholders (Apart scan flatten fillIn)
open Occurrences (replaceAll replaceAll_absent replaceAll_self)

namespace Skills

variable {P : Python} {look : String → Option Json} {source : String} {handles : List String}
  {secrets : List (String × String)} {f g : String → String}

/-! ## Substituting -/

mutual

/-- A value with its texts changed. -/
def mapTexts (f : String → String) : Json → Json
  | .str s => .str (f s)
  | .arr xs => .arr (mapItems f xs)
  | .obj kvs => .obj (mapFields f kvs)
  | .null => .null
  | .bool b => .bool b
  | .num d => .num d

def mapItems (f : String → String) : List Json → List Json
  | [] => []
  | x :: xs => mapTexts f x :: mapItems f xs

def mapFields (f : String → String) : Bindings → Bindings
  | [] => []
  | kv :: kvs => mapField f kv :: mapFields f kvs

def mapField (f : String → String) : String × Json → String × Json
  | (key, value) => (key, mapTexts f value)

end

def substituteText (secrets : List (String × String)) (text : String) : String :=
  if SECRET_PREFIX.toList.isPrefixOf text.toList then (secrets.lookup text).getD text else text

/-- `_substitute`, of arguments -/
def substitute (secrets : List (String × String)) (args : Bindings) : Bindings :=
  mapFields (substituteText secrets) args

/-- The text with the secret of each handle in its place, as far as it is named. -/
def replacedText (handles : List String) (secrets : List (String × String)) (text : String) :
    String :=
  String.ofList (replaceAll (handles.map (·.toList))
    (fun key => ((secrets.lookup (String.ofList key)).getD (String.ofList key)).toList) text.toList)

/-! ## Texts in values -/

mutual

/-- A value with no text to change stays as it is. -/
theorem mapTexts_still : ∀ {value : Json}, (∀ text ∈ texts value, f text = text) →
    mapTexts f value = value
  | .str s, h => by rw [mapTexts, h s (by simp [texts])]
  | .arr xs, h => by rw [mapTexts, mapItems_still fun text hin => h text (by simpa [texts] using hin)]
  | .obj kvs, h => by
    rw [mapTexts, mapFields_still fun text hin => h text (by simpa [texts] using hin)]
  | .null, _ => by rw [mapTexts]
  | .bool _, _ => by rw [mapTexts]
  | .num _, _ => by rw [mapTexts]

theorem mapItems_still : ∀ {xs : List Json}, (∀ text ∈ itemTexts xs, f text = text) →
    mapItems f xs = xs
  | [], _ => rfl
  | x :: xs, h => by
    rw [mapItems, mapTexts_still fun text hin => h text (by simp [itemTexts, hin]),
      mapItems_still fun text hin => h text (by simp [itemTexts, hin])]

theorem mapFields_still : ∀ {kvs : Bindings}, (∀ text ∈ fieldTexts kvs, f text = text) →
    mapFields f kvs = kvs
  | [], _ => rfl
  | kv :: kvs, h => by
    rw [mapFields, mapField_still fun text hin => h text (by simp [fieldTexts, hin]),
      mapFields_still fun text hin => h text (by simp [fieldTexts, hin])]

theorem mapField_still : ∀ {kv : String × Json}, (∀ text ∈ fieldTexts₁ kv, f text = text) →
    mapField f kv = kv
  | (key, value), h => by rw [mapField, mapTexts_still h]

end

theorem hasText_iff {needle text : List Char} : hasText needle text = true ↔ needle <:+: text := by
  simp only [hasText, List.any_eq_true, List.mem_tails, List.isPrefixOf_iff_prefix]
  constructor
  · rintro ⟨rest, hsuffix, hbegins⟩
    exact hbegins.isInfix.trans hsuffix.isInfix
  · rintro ⟨pre, post, rfl⟩
    exact ⟨needle ++ post, ⟨pre, by simp⟩, List.prefix_append ..⟩

/-- A text has a handle in it. -/
def HasHandle (handles : List String) (text : String) : Prop :=
  ∃ handle ∈ handles, handle.toList <:+: text.toList

theorem carriesSecret_str {text : String} :
    carriesSecret handles (.str text) = true ↔ HasHandle handles text := by
  simp [carriesSecret, HasHandle, hasText_iff]

mutual

theorem carriesSecret_iff : ∀ {value : Json},
    carriesSecret handles value = true ↔ ∃ text ∈ texts value, HasHandle handles text
  | .str s => by
    rw [carriesSecret_str]
    simp [texts]
  | .arr xs => by
    rw [carriesSecret, anyCarries_iff]
    simp [texts]
  | .obj kvs => by
    rw [carriesSecret, anyFieldCarries_iff]
    simp [texts]
  | .null => by simp [carriesSecret, texts]
  | .bool _ => by simp [carriesSecret, texts]
  | .num _ => by simp [carriesSecret, texts]

theorem anyCarries_iff : ∀ {xs : List Json},
    anyCarries handles xs = true ↔ ∃ text ∈ itemTexts xs, HasHandle handles text
  | [] => by simp [anyCarries, itemTexts]
  | x :: xs => by
    rw [anyCarries, Bool.or_eq_true, carriesSecret_iff, anyCarries_iff]
    simp only [itemTexts, List.mem_append, or_and_right, exists_or]

theorem anyFieldCarries_iff : ∀ {kvs : Bindings},
    anyFieldCarries handles kvs = true ↔ ∃ text ∈ fieldTexts kvs, HasHandle handles text
  | [] => by simp [anyFieldCarries, fieldTexts]
  | kv :: kvs => by
    rw [anyFieldCarries, Bool.or_eq_true, fieldCarries_iff, anyFieldCarries_iff]
    simp only [fieldTexts, List.mem_append, or_and_right, exists_or]

theorem fieldCarries_iff : ∀ {kv : String × Json},
    fieldCarries handles kv = true ↔ ∃ text ∈ fieldTexts₁ kv, HasHandle handles text
  | (key, value) => by rw [fieldCarries, carriesSecret_iff, fieldTexts₁]

end

/-! ## Handles in a text -/

/-- The handles are those of secrets: each begins with the prefix. -/
def AreHandles (handles : List String) : Prop :=
  ∀ handle ∈ handles, SECRET_PREFIX.toList <+: handle.toList

/-- No handle has a brace in it. -/
def NoBraces (handles : List String) : Prop :=
  ∀ handle ∈ handles, '\x7b' ∉ handle.toList ∧ '\x7d' ∉ handle.toList

theorem AreHandles.ne_nil (h : AreHandles handles) {handle : String} (hin : handle ∈ handles) :
    handle.toList ≠ [] := by
  intro hnil
  have hbegins := h handle hin
  rw [hnil] at hbegins
  exact absurd (List.prefix_nil.mp hbegins) (by decide)

theorem colon_mem (h : AreHandles handles) {handle : String} (hin : handle ∈ handles) :
    ':' ∈ handle.toList :=
  (h handle hin).subset (by decide)

theorem replacedText_absent {text : String} (h : ¬ HasHandle handles text) :
    replacedText handles secrets text = text := by
  unfold replacedText
  rw [replaceAll_absent, String.ofList_toList]
  rintro key hkey - hinside
  obtain ⟨handle, hin, rfl⟩ := List.mem_map.mp hkey
  exact h ⟨handle, hin, hinside⟩

theorem replacedText_handle (h : AreHandles handles) {text secret : String} (hin : text ∈ handles)
    (hsecret : secrets.lookup text = some secret) :
    replacedText handles secrets text = secret := by
  unfold replacedText
  rw [replaceAll_self (List.mem_map_of_mem hin) (h.ne_nil hin)]
  simp only [String.ofList_toList, hsecret, Option.getD_some]

/-- The characters of a placeholder. -/
theorem colon_not_mem {raw : List Char} {name : String} (h : IsPlaceholder P raw name) :
    ':' ∉ raw := by
  obtain ⟨⟨lead, c, body, trail, hlead, hstart, hbody, htrail, -, rfl⟩⟩ := h
  have hspace : isSpace ':' = false := by decide
  have hchar : isNameChar P ':' = false := by
    rw [isNameChar, P.isWord_ascii ':' (by decide)]
    decide
  have hlead' : ':' ∉ lead := fun hin => by simp [hlead ':' hin] at hspace
  have htrail' : ':' ∉ trail := fun hin => by simp [htrail ':' hin] at hspace
  have hbody' : ':' ∉ body := fun hin => by simp [hbody ':' hin] at hchar
  have hc : ':' ≠ c := by
    rintro rfl
    simp [isNameStart] at hstart
  simp [hlead', htrail', hbody', hc]

/-- A handle without braces meets no placeholder. -/
theorem apart_handle (h : AreHandles handles) (hbraces : NoBraces handles) {handle : String}
    (hin : handle ∈ handles) : Apart (placeholder P) handle.toList where
  begins c hc ds := readPlaceholder_other (fun heq => (hbraces handle hin).1 (heq ▸ hc)) ds
  ends {cs u v a} hread hne hbegins := by
    obtain ⟨⟨lead, c, body, trail, -, -, -, -, -, hraw⟩⟩ := (readPlaceholder_iff.mp hread).1
    have hsplit : u ++ v =
        ('\x7b' :: '\x7b' :: (lead ++ (c :: body) ++ trail ++ ['\x7d'])) ++ ['\x7d'] := by
      simp [hraw]
    have hlast : (u ++ v).getLast? = some '\x7d' := by rw [hsplit, List.getLast?_concat]
    rw [List.getLast?_append_of_ne_nil _ hne] at hlast
    have hmem : '\x7d' ∈ v := List.mem_of_getLast? hlast
    exact (hbraces handle hin).2 (hbegins.subset hmem)
  inside {cs raw a} hread hinside :=
    colon_not_mem (readPlaceholder_iff.mp hread).1 (hinside.subset (colon_mem h hin))

/-- A handle without braces is still there after rendering. -/
theorem render_hasHandle (h : AreHandles handles) (hbraces : NoBraces handles) {text : String}
    {value : Json} (hin : HasHandle handles text) (hvalue : render P look source text = .ok value) :
    carriesSecret handles value = true := by
  obtain ⟨handle, hhandle, hinside⟩ := hin
  have hapart := apart_handle (P := P) h hbraces hhandle
  cases hwhole : whole P text with
  | none =>
    have hok := render_ok_iff.mp ⟨value, hvalue⟩
    rw [render_eq_of_not_whole hwhole hok] at hvalue
    cases hvalue
    rw [carriesSecret_str]
    refine ⟨handle, hhandle, ?_⟩
    rw [String.toList_ofList]
    exact hapart.infix_fillIn (known P look) hinside
  | some name =>
    -- a text that is one placeholder has only space around it
    exfalso
    obtain ⟨lead, raw, trail, hscan, hlead, htrail⟩ := scan_whole hwhole
    have hkept := hapart.infix_fillIn (fun _ => some []) hinside
    have hrest : flatten (fillIn (fun _ => some []) (scan (placeholder P) text.toList)) =
        lead ++ trail := by
      rw [hscan]
      simp [fillIn]
    rw [hrest] at hkept
    have hspace : isSpace ':' = false := by decide
    rcases List.mem_append.mp (hkept.subset (colon_mem h hhandle)) with hin | hin
    · simp [hlead ':' hin] at hspace
    · simp [htrail ':' hin] at hspace

/-! ## What is sent -/

/-- The secrets are those of the handles. -/
def Named (handles : List String) (secrets : List (String × String)) : Prop :=
  ∀ secret ∈ secrets, secret.1 ∈ handles

theorem Named.mem (h : Named handles secrets) {text secret : String}
    (hsecret : secrets.lookup text = some secret) : text ∈ handles := by
  obtain ⟨before, after, hsplit, -⟩ := List.lookup_eq_some_iff.mp hsecret
  exact h (text, secret) (by simp [hsplit])

/-- What is sent is what rendering came to, with the secrets put in, and nothing is left
    in it that should have been replaced. -/
def PutIn {α : Type} (replace : α → α) (carries : α → Bool)
    (rendered : Except ThreePartMessage α) (sent : α) : Prop :=
  ∃ value, rendered = .ok value ∧ sent = replace value ∧ carries sent = false

/-- A value is sent with the secret in the place of each handle. -/
abbrev SecretsIn (handles : List String) (secrets : List (String × String)) :
    Except ThreePartMessage Json → Json → Prop :=
  PutIn (mapTexts (replacedText handles secrets)) (carriesSecret handles)

/-- Arguments are. -/
abbrev SecretsInArgs (handles : List String) (secrets : List (String × String)) :
    Except ThreePartMessage Bindings → Bindings → Prop :=
  PutIn (mapFields (replacedText handles secrets)) (anyFieldCarries handles)

/-- A text in whose place the right text is sent: the whole of it is a handle, the batch
    names its secret, and rendering leaves that as it is; or it has no handle in it, and
    what is put in for its references brings none. -/
inductive Replaceable (P : Python) (handles : List String) (secrets : List (String × String))
    (look : String → Option Json) (source text : String) : Prop where
  | whole {secret : String} (hsecret : secrets.lookup text = some secret)
    (hstill : references P text = []) (hrender : render P look source secret = .ok (.str secret))
    (hfree : ¬ HasHandle handles secret)
  | free {value : Json} (htext : ¬ HasHandle handles text)
    (hrender : render P look source text = .ok value) (hfree : carriesSecret handles value = false)

theorem substituteText_handle (h : AreHandles handles) {text secret : String}
    (hin : text ∈ handles) (hsecret : secrets.lookup text = some secret) :
    substituteText secrets text = secret := by
  have hbegins : SECRET_PREFIX.toList.isPrefixOf text.toList = true :=
    List.isPrefixOf_iff_prefix.mpr (h text hin)
  rw [substituteText, if_pos hbegins, hsecret, Option.getD_some]

theorem substituteText_other {text : String} (hsecret : secrets.lookup text = none) :
    substituteText secrets text = text := by
  rw [substituteText, hsecret]
  simp

/-- What has no handle in it is not replaced. -/
theorem mapTexts_replacedText {value : Json} (h : carriesSecret handles value = false) :
    mapTexts (replacedText handles secrets) value = value := by
  refine mapTexts_still fun text hin => replacedText_absent fun hhandle => ?_
  rw [carriesSecret_iff.mpr ⟨text, hin, hhandle⟩] at h
  cases h

/-- A text that can be replaced is sent as it should be. -/
theorem Replaceable.secretsIn (h : AreHandles handles) (hnamed : Named handles secrets)
    {text : String} (hreplace : Replaceable P handles secrets look source text) :
    ∃ sent, render P look source (substituteText secrets text) = .ok sent ∧
      SecretsIn handles secrets (render P look source text) sent := by
  cases hreplace with
  | whole hsecret hstill hrender hfree =>
    have hin := hnamed.mem hsecret
    rw [substituteText_handle h hin hsecret]
    refine ⟨_, hrender, .str text, render_still hstill, ?_, ?_⟩
    · rw [mapTexts, replacedText_handle h hin hsecret]
    · rw [Bool.eq_false_iff, ne_eq, carriesSecret_str]
      exact hfree
  | free htext hrender hfree =>
    have hnone : secrets.lookup text = none := by
      cases hsecret : secrets.lookup text with
      | none => rfl
      | some secret => exact absurd ⟨text, hnamed.mem hsecret, List.infix_refl _⟩ htext
    rw [substituteText_other hnone]
    exact ⟨_, hrender, _, hrender, (mapTexts_replacedText hfree).symm, hfree⟩

/-- No other text is, as long as the handles have no braces in them. -/
theorem SecretsIn.replaceable (h : AreHandles handles) (hbraces : NoBraces handles)
    (hnamed : Named handles secrets) {text : String} {sent : Json}
    (hsent : render P look source (substituteText secrets text) = .ok sent)
    (hin : SecretsIn handles secrets (render P look source text) sent) :
    Replaceable P handles secrets look source text := by
  obtain ⟨value, hvalue, rfl, hfree⟩ := hin
  cases hsecret : secrets.lookup text with
  | some secret =>
    have hhandle := hnamed.mem hsecret
    have hstill : references P text = [] := references_eq_nil (hbraces text hhandle).1
    rw [render_still hstill] at hvalue
    cases hvalue
    rw [mapTexts, replacedText_handle h hhandle hsecret] at hsent hfree
    rw [substituteText_handle h hhandle hsecret] at hsent
    refine .whole hsecret hstill hsent fun hhas => ?_
    rw [carriesSecret_str.mpr hhas] at hfree
    cases hfree
  | none =>
    rw [substituteText_other hsecret] at hsent
    -- a handle in the text would have been sent with it
    refine .free (fun hhas => ?_) hsent hfree
    rw [render_hasHandle h hbraces hhas hsent] at hfree
    cases hfree

/-! ## Arguments -/

section Arguments

variable (P look source handles secrets)

/-- The text is sent as it should be. -/
def SentRight (text : String) : Prop :=
  ∃ sent, render P look source (substituteText secrets text) = .ok sent ∧
    SecretsIn handles secrets (render P look source text) sent

end Arguments

/-- A list is sent as it should be when its head and its tail are. -/
theorem putIn_cons {α : Type} {replace : α → α} {replaceAll : List α → List α}
    {carries : α → Bool} {anyCarries : List α → Bool} {first : Except ThreePartMessage α}
    {rest rendered : Except ThreePartMessage (List α)} {sent : α} {sents : List α}
    (hreplace : ∀ x xs, replaceAll (x :: xs) = replace x :: replaceAll xs)
    (hcarries : ∀ x xs, anyCarries (x :: xs) = (carries x || anyCarries xs))
    (hrendered : ∀ ys, rendered = .ok ys ↔
      ∃ y zs, first = .ok y ∧ rest = .ok zs ∧ y :: zs = ys) :
    PutIn replaceAll anyCarries rendered (sent :: sents) ↔
      PutIn replace carries first sent ∧ PutIn replaceAll anyCarries rest sents := by
  constructor
  · rintro ⟨ys, hys, hsents, hfree⟩
    obtain ⟨y, zs, hfirst, hrest, rfl⟩ := (hrendered ys).mp hys
    rw [hreplace] at hsents
    obtain ⟨hsent, hsents⟩ := List.cons.inj hsents
    rw [hcarries, Bool.or_eq_false_iff] at hfree
    exact ⟨⟨y, hfirst, hsent, hfree.1⟩, zs, hrest, hsents, hfree.2⟩
  · rintro ⟨⟨y, hfirst, hsent, hfree⟩, zs, hrest, hsents, hfrees⟩
    refine ⟨y :: zs, (hrendered _).mpr ⟨y, zs, hfirst, hrest, rfl⟩, ?_, ?_⟩
    · rw [hreplace, hsent, hsents]
    · rw [hcarries, hfree, hfrees]
      rfl

theorem renderItems_cons_ok {x : Json} {xs ys : List Json} :
    renderItems P look source (x :: xs) = .ok ys ↔
      ∃ y zs, renderValue P look source x = .ok y ∧ renderItems P look source xs = .ok zs ∧
        y :: zs = ys := by
  rw [renderItems]
  cases renderValue P look source x with
  | error e => simp
  | ok y => cases renderItems P look source xs <;> simp [Except.map]

theorem renderFields_cons_ok {kv : String × Json} {kvs kvs' : Bindings} :
    renderFields P look source (kv :: kvs) = .ok kvs' ↔
      ∃ y zs, renderField P look source kv = .ok y ∧ renderFields P look source kvs = .ok zs ∧
        y :: zs = kvs' := by
  rw [renderFields]
  cases renderField P look source kv with
  | error e => simp
  | ok y => cases renderFields P look source kvs <;> simp [Except.map]

mutual

/-- A value is sent as it should be when each of its texts is. -/
theorem renderValue_secretsIn : ∀ {value sent : Json},
    renderValue P look source (mapTexts (substituteText secrets) value) = .ok sent →
    (PutIn (mapTexts (replacedText handles secrets)) (carriesSecret handles)
        (renderValue P look source value) sent ↔
      ∀ text ∈ texts value, SentRight P look source handles secrets text)
  | .str s, sent, h => by
    rw [mapTexts, renderValue] at h
    rw [renderValue]
    simp only [texts, List.mem_singleton, forall_eq, SentRight, h, Except.ok.injEq]
    exact ⟨fun hin => ⟨sent, rfl, hin⟩, fun ⟨_, heq, hin⟩ => heq ▸ hin⟩
  | .arr xs, sent, h => by
    rw [mapTexts, renderValue] at h
    cases hxs : renderItems P look source (mapItems (substituteText secrets) xs) with
    | error e => simp [hxs, Except.map] at h
    | ok ys =>
      rw [hxs] at h
      cases h
      rw [renderValue, texts, ← renderItems_secretsIn hxs]
      cases renderItems P look source xs <;> simp [PutIn, Except.map, mapTexts, carriesSecret]
  | .obj kvs, sent, h => by
    rw [mapTexts, renderValue] at h
    cases hkvs : renderFields P look source (mapFields (substituteText secrets) kvs) with
    | error e => simp [hkvs, Except.map] at h
    | ok kvs' =>
      rw [hkvs] at h
      cases h
      rw [renderValue, texts, ← renderFields_secretsIn hkvs]
      cases renderFields P look source kvs <;> simp [PutIn, Except.map, mapTexts, carriesSecret]
  | .null, sent, h => by
    simp only [mapTexts, renderValue, Except.ok.injEq] at h
    subst h
    simp [PutIn, renderValue, mapTexts, carriesSecret, texts]
  | .bool _, sent, h => by
    simp only [mapTexts, renderValue, Except.ok.injEq] at h
    subst h
    simp [PutIn, renderValue, mapTexts, carriesSecret, texts]
  | .num _, sent, h => by
    simp only [mapTexts, renderValue, Except.ok.injEq] at h
    subst h
    simp [PutIn, renderValue, mapTexts, carriesSecret, texts]

theorem renderItems_secretsIn : ∀ {xs sents : List Json},
    renderItems P look source (mapItems (substituteText secrets) xs) = .ok sents →
    (PutIn (mapItems (replacedText handles secrets)) (anyCarries handles)
        (renderItems P look source xs) sents ↔
      ∀ text ∈ itemTexts xs, SentRight P look source handles secrets text)
  | [], sents, h => by
    cases h
    simp [PutIn, renderItems, mapItems, anyCarries, itemTexts]
  | x :: xs, sents, h => by
    rw [mapItems, renderItems_cons_ok] at h
    obtain ⟨sent, rest, hx, hxs, rfl⟩ := h
    rw [putIn_cons (mapItems.eq_2 _) (anyCarries.eq_2 _) fun _ => renderItems_cons_ok,
      renderValue_secretsIn hx, renderItems_secretsIn hxs]
    simp only [itemTexts, List.mem_append, or_imp, forall_and]

theorem renderFields_secretsIn : ∀ {kvs sents : Bindings},
    renderFields P look source (mapFields (substituteText secrets) kvs) = .ok sents →
    (PutIn (mapFields (replacedText handles secrets)) (anyFieldCarries handles)
        (renderFields P look source kvs) sents ↔
      ∀ text ∈ fieldTexts kvs, SentRight P look source handles secrets text)
  | [], sents, h => by
    cases h
    simp [PutIn, renderFields, mapFields, anyFieldCarries, fieldTexts]
  | kv :: kvs, sents, h => by
    rw [mapFields, renderFields_cons_ok] at h
    obtain ⟨sent, rest, hkv, hkvs, rfl⟩ := h
    rw [putIn_cons (mapFields.eq_2 _) (anyFieldCarries.eq_2 _) fun _ => renderFields_cons_ok,
      renderField_secretsIn hkv, renderFields_secretsIn hkvs]
    simp only [fieldTexts, List.mem_append, or_imp, forall_and]

theorem renderField_secretsIn : ∀ {kv sent : String × Json},
    renderField P look source (mapField (substituteText secrets) kv) = .ok sent →
    (PutIn (mapField (replacedText handles secrets)) (fieldCarries handles)
        (renderField P look source kv) sent ↔
      ∀ text ∈ fieldTexts₁ kv, SentRight P look source handles secrets text)
  | (key, value), sent, h => by
    rw [mapField, renderField] at h
    cases hvalue : renderValue P look source (mapTexts (substituteText secrets) value) with
    | error e => simp [hvalue, Except.map] at h
    | ok sent' =>
      rw [hvalue] at h
      cases h
      rw [renderField, fieldTexts₁, ← renderValue_secretsIn hvalue]
      cases renderValue P look source value <;> simp [PutIn, Except.map, mapField, fieldCarries]

end

/-- The arguments of a step are sent as they should be when each text in them can be
    replaced; and only then, as long as the handles have no braces in them. -/
theorem secretsInArgs_iff (h : AreHandles handles) (hnamed : Named handles secrets)
    {args sent : Bindings} (hsent : renderFields P look source (substitute secrets args) = .ok sent) :
    ((∀ text ∈ fieldTexts args, Replaceable P handles secrets look source text) →
        SecretsInArgs handles secrets (renderFields P look source args) sent) ∧
      (NoBraces handles → SecretsInArgs handles secrets (renderFields P look source args) sent →
        ∀ text ∈ fieldTexts args, Replaceable P handles secrets look source text) := by
  have hiff : SecretsInArgs handles secrets (renderFields P look source args) sent ↔
      ∀ text ∈ fieldTexts args, SentRight P look source handles secrets text :=
    renderFields_secretsIn hsent
  constructor
  · exact fun hreplace => hiff.mpr fun text hin => (hreplace text hin).secretsIn h hnamed
  · intro hbraces hright text hin
    obtain ⟨sent', hsent', hput⟩ := hiff.mp hright text hin
    exact hput.replaceable h hbraces hnamed hsent'

/-! ## The handles of a compilation -/

theorem bindInput_handles {skill : Skill} {given : Bindings} {bound bound' : Bound} {name : String}
    {spec : InputSpec} (hbound : AreHandles (bound.handles.map (·.2)))
    (h : bindInput P skill given bound name spec = .ok bound') :
    AreHandles (bound'.handles.map (·.2)) := by
  unfold bindInput at h
  split at h
  · split at h
    · cases h
      intro handle hin
      rw [List.map_append, List.mem_append] at hin
      rcases hin with hin | hin
      · exact hbound handle hin
      · rw [List.map_singleton, List.mem_singleton] at hin
        subst hin
        rw [String.append_assoc, String.append_assoc, String.toList_append]
        exact List.prefix_append _ _
    · split at h <;> cases h <;> exact hbound
  · split at h
    · split at h
      · cases h
      · cases h
        exact hbound
    · split at h
      · cases h
        exact hbound
      · split at h <;> cases h <;> exact hbound

/-- The handles of a compiled skill are handles. -/
theorem compileSkill_handles {skill : Skill} {digest : String → String → List String → String}
    {inputs : Bindings} {jobId : String} {now : DateTime} {compiled : CompiledSkill}
    (h : compileSkill P digest skill inputs jobId now = .ok compiled) :
    AreHandles (compiled.secretHandles.map (·.2)) := by
  obtain ⟨context, st, hbind, -⟩ := compileSkill_cases h
  have hfold : ∀ (specs : List (String × InputSpec)) (bound bound' : Bound),
      AreHandles (bound.handles.map (·.2)) →
      specs.foldlM (fun bound input => bindInput P skill inputs bound input.1 input.2) bound =
        .ok bound' → AreHandles (bound'.handles.map (·.2)) := by
    intro specs
    induction specs with
    | nil =>
      intro bound bound' hbound heq
      cases heq
      exact hbound
    | cons spec specs ih =>
      intro bound bound' hbound heq
      rw [List.foldlM_cons] at heq
      cases hone : bindInput P skill inputs bound spec.1 spec.2 with
      | error e => simp [hone, bind, Except.bind] at heq
      | ok next =>
        rw [hone] at heq
        exact ih next bound' (bindInput_handles hbound hone) heq
  unfold bindInputs at hbind
  simp only at hbind
  split at hbind
  · cases hbind
  · split at hbind
    · cases hbind
    · rename_i bound hbound
      split at hbind
      · cases hbind
      · have hstart : AreHandles (({} : Bound).handles.map (·.2)) := fun handle hin => by cases hin
        obtain ⟨-, hhandles⟩ := Prod.mk.inj (Except.ok.inj hbind)
        rw [← hhandles]
        exact hfold _ _ _ hstart hbound

end Skills

end Slas
