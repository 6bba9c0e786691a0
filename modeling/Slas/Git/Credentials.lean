/-
  Slas.Git.Credentials

  Credentials by reference (`EncryptedFileStore` of `slas_git.credentials`), in use by
  several owners.  The file is kept as the dictionary that it holds.

  Theorems:
    reveal_eq — after any operations of any owners, a credential is revealed to an owner
                exactly as that owner left it.
-/

import Slas.Kernel.World
import Slas.Lib.Base64
import Slas.Lib.Dict
import Mathlib.Data.List.Induction

namespace Slas

namespace Git

/-! ## Sealers and credentials -/

/-- What ends an operation of the store. -/
inductive CredentialFailure where
  /-- `CredentialError` -/
  | refused (message : ThreePartMessage)
  /-- any other exception, with its message -/
  | raised (message : String)

/-- Authenticated encryption with a random nonce. -/
structure Sealer where
  name : String
  /-- `seal`, with the nonce that it draws -/
  sealBytes : ByteArray → ByteArray → ByteArray → ByteArray
  /-- `open` -/
  openBytes : ByteArray → ByteArray → Except CredentialFailure ByteArray
  open_seal : ∀ nonce plaintext aad, openBytes (sealBytes nonce plaintext aad) aad = .ok plaintext

inductive AuthType where
  | pat
  | sshKey
  deriving DecidableEq

/-- `secrets.token_hex(12)` -/
structure Token where
  text : String
  hex : text.toList.all isHexDigit = true
  length : text.toList.length = 24
  deriving DecidableEq

def Token.ref (token : Token) : String := "cred-" ++ token.text

structure StoredCredential where
  ref : String
  owner : String
  authType : AuthType
  sealer : String
  ciphertextB64 : String
  fingerprint : String
  createdAt : String
  rotatedAt : Option String := none
  ref_token : ∃ token : Token, ref = token.ref
  owner_ne : owner ≠ ""

/-- The file, if there is one. -/
abbrev CredentialFile := Option (List (String × StoredCredential))

namespace EncryptedFileStore

/-! ## The operations -/

structure Put where
  secret : String
  owner : String
  authType : AuthType
  fingerprint : String
  now : String
  token : Token
  nonce : ByteArray

structure Rotate where
  ref : String
  secret : String
  owner : String
  fingerprint : String
  now : String
  nonce : ByteArray

def notAvailable : CredentialFailure := .refused
  { whatHappened := "That credential is not available."
    likelyCause := "It was deleted, or it belongs to someone else."
    whatToDo := "Add the remote again under Settings → Git remotes." }

/-- `f"{ref}|{owner}".encode()` -/
def aad (ref owner : String) : ByteArray := (ref ++ "|" ++ owner).toUTF8

/-- `_load` -/
def load (file : CredentialFile) : List (String × StoredCredential) := file.getD []

/-- `_get` -/
def getItem (items : List (String × StoredCredential)) (ref owner : String) :
    Except CredentialFailure StoredCredential :=
  match items.lookup ref with
  | none => .error notAvailable
  | some item => if item.owner ≠ owner then .error notAvailable else .ok item

variable (S : Sealer)

/-- A sealed secret, as it is written. -/
def sealed (nonce : ByteArray) (secret ref owner : String) : String :=
  Base64.encode (S.sealBytes nonce secret.toUTF8 (aad ref owner))

def put (p : Put) (file : CredentialFile) : Except CredentialFailure (String × CredentialFile) :=
  let items := load file
  let ref := p.token.ref
  if h : p.owner ≠ "" then
    let item : StoredCredential :=
      { ref, owner := p.owner, authType := p.authType, sealer := S.name
        ciphertextB64 := sealed S p.nonce p.secret ref p.owner, fingerprint := p.fingerprint
        createdAt := p.now, ref_token := ⟨p.token, rfl⟩, owner_ne := h }
    .ok (ref, some (Dict.set ref item items))
  else .error (.raised "1 validation error for StoredCredential")

/-- The secret of a record, to its owner. -/
def openItem (ref owner : String) (item : StoredCredential) : Except CredentialFailure String := do
  match Base64.decode item.ciphertextB64 with
  | none => .error (.raised "Incorrect padding")
  | some bytes =>
    match String.fromUTF8? (← S.openBytes bytes (aad ref owner)) with
    | none => .error (.raised "'utf-8' codec can't decode")
    | some secret => return secret

def reveal (file : CredentialFile) (ref owner : String) : Except CredentialFailure String := do
  let item ← getItem (load file) ref owner
  openItem S ref owner item

def rotate (r : Rotate) (file : CredentialFile) : Except CredentialFailure CredentialFile := do
  let items := load file
  let item ← getItem items r.ref r.owner
  let rotated := { item with
    ciphertextB64 := sealed S r.nonce r.secret r.ref r.owner
    fingerprint := r.fingerprint
    rotatedAt := some r.now }
  return some (Dict.set r.ref rotated items)

def delete (ref owner : String) (file : CredentialFile) :
    Except CredentialFailure CredentialFile := do
  let items := load file
  let _ ← getItem items ref owner
  return some (Dict.pop ref items)

/-! ## Histories -/

inductive StoreOp where
  | put (p : Put)
  | rotate (r : Rotate)
  | delete (ref owner : String)
  | reveal (ref owner : String)

def StoreOp.owner : StoreOp → String
  | .put p => p.owner
  | .rotate r => r.owner
  | .delete _ owner => owner
  | .reveal _ owner => owner

/-- The token that an operation draws. -/
def StoreOp.token? : StoreOp → Option Token
  | .put p => some p.token
  | _ => none

/-- The file after an operation; an exception leaves it as it was. -/
def fileStep (file : CredentialFile) : StoreOp → CredentialFile
  | .put p => (put S p file).toOption.elim file Prod.snd
  | .rotate r => (rotate S r file).toOption.getD file
  | .delete ref owner => (delete ref owner file).toOption.getD file
  | .reveal _ _ => file

/-- The file after a history, from no file on. -/
def fileAfter (ops : List StoreOp) : CredentialFile := ops.foldl (fileStep S) none

/-- The tokens that a history draws. -/
def tokens (ops : List StoreOp) : List Token := ops.filterMap StoreOp.token?

/-- What an owner left under a reference: the secret last put or rotated, unless it was
    deleted since. -/
def heldStep (ref owner : String) (held : Option String) : StoreOp → Option String
  | .put p => if p.owner = owner ∧ p.token.ref = ref ∧ owner ≠ "" then some p.secret else held
  | .rotate r => if r.owner = owner ∧ r.ref = ref then held.map fun _ => r.secret else held
  | .delete r o => if o = owner ∧ r = ref then none else held
  | .reveal _ _ => held

def held (ref owner : String) (ops : List StoreOp) : Option String :=
  ops.foldl (heldStep ref owner) none

/-- What is answered of what an owner left. -/
def told : Option String → Except CredentialFailure String
  | some secret => .ok secret
  | none => .error notAvailable

/-! ## Records that open -/

variable {S} {ops : List StoreOp} {file : CredentialFile} {ref owner : String}
  {item : StoredCredential}

/-- What was sealed for an owner is opened to that owner. -/
theorem openItem_sealed (nonce : ByteArray) {secret : String}
    (h : item.ciphertextB64 = sealed S nonce secret ref owner) :
    openItem S ref owner item = .ok secret := by
  have htext : String.fromUTF8? secret.toUTF8 = some secret := by
    have hvalid : secret.toUTF8.IsValidUTF8 := secret.isValidUTF8
    rw [String.fromUTF8?, dif_pos hvalid]
    rfl
  simp only [openItem, h, sealed, Base64.decode_encode, S.open_seal, bind, Except.bind, htext]
  rfl

theorem getItem_of_lookup (h : (load file).lookup ref = some item) (howner : item.owner = owner) :
    getItem (load file) ref owner = .ok item := by
  simp [getItem, h, howner]

theorem getItem_ok (h : getItem (load file) ref owner = .ok item) :
    (load file).lookup ref = some item ∧ item.owner = owner := by
  unfold getItem at h
  cases hfound : (load file).lookup ref with
  | none => simp [hfound] at h
  | some found =>
    simp only [hfound] at h
    split_ifs at h with howner
    cases h
    exact ⟨rfl, not_not.mp howner⟩

/-! ## What the file holds -/

/-- The file holds what the owners left, under references that were drawn. -/
structure Keeps (S : Sealer) (ops : List StoreOp) (file : CredentialFile) : Prop where
  /-- a record opens to what its owner left -/
  opens : ∀ ref item, (load file).lookup ref = some item →
    ∃ secret, held ref item.owner ops = some secret ∧ openItem S ref item.owner item = .ok secret
  /-- what an owner left is there, as a record of that owner -/
  there : ∀ ref owner, (held ref owner ops).isSome →
    ∃ item, (load file).lookup ref = some item ∧ item.owner = owner
  drawn : ∀ ref item, (load file).lookup ref = some item → ∃ token ∈ tokens ops, ref = token.ref

theorem held_snoc (ref owner : String) (ops : List StoreOp) (op : StoreOp) :
    held ref owner (ops ++ [op]) = heldStep ref owner (held ref owner ops) op := by
  simp [held]

theorem tokens_snoc (ops : List StoreOp) (op : StoreOp) :
    tokens (ops ++ [op]) = tokens ops ++ op.token?.toList := by
  cases op <;> simp [tokens, StoreOp.token?]

theorem Token.ref_inj {a b : Token} (h : a.ref = b.ref) : a = b := by
  have htext : a.text = b.text := by
    have hlist := congrArg String.toList h
    simp only [Token.ref, String.toList_append] at hlist
    exact String.toList_injective (List.append_cancel_left hlist)
  cases a
  cases b
  cases htext
  rfl

/-- Two owners do not hold one reference. -/
theorem Keeps.not_held {other : String} (h : Keeps S ops file)
    (hheld : (held ref owner ops).isSome) (hne : other ≠ owner) : held ref other ops = none := by
  by_contra hother
  obtain ⟨item, hitem, howner⟩ := h.there ref owner hheld
  obtain ⟨item', hitem', howner'⟩ := h.there ref other (Option.isSome_iff_ne_none.mpr hother)
  rw [hitem] at hitem'
  cases hitem'
  exact hne (howner'.symm.trans howner)

/-- A history that leaves what is held and what is stored as it was. -/
theorem Keeps.same {op : StoreOp} (h : Keeps S ops file)
    (hheld : ∀ ref owner, held ref owner (ops ++ [op]) = held ref owner ops) :
    Keeps S (ops ++ [op]) file where
  opens ref item hitem := by
    rw [hheld]
    exact h.opens ref item hitem
  there ref owner hsome := by
    rw [hheld] at hsome
    exact h.there ref owner hsome
  drawn ref item hitem := by
    obtain ⟨token, htoken, heq⟩ := h.drawn ref item hitem
    exact ⟨token, tokens_snoc ops op ▸ List.mem_append_left _ htoken, heq⟩

/-- The record of one reference is written, and what its owner left is what it opens to. -/
theorem Keeps.write {op : StoreOp} {secret : String} (h : Keeps S ops file)
    (hopen : openItem S ref item.owner item = .ok secret)
    (hown : held ref item.owner (ops ++ [op]) = some secret)
    (hothers : ∀ other, other ≠ item.owner → held ref other (ops ++ [op]) = none)
    (hframe : ∀ other owner, other ≠ ref → held other owner (ops ++ [op]) = held other owner ops)
    (hdrawn : ∃ token ∈ tokens (ops ++ [op]), ref = token.ref) :
    Keeps S (ops ++ [op]) (some (Dict.set ref item (load file))) where
  opens other found hfound := by
    simp only [load, Option.getD_some, Dict.lookup_set] at hfound
    split_ifs at hfound with hsame
    · cases hfound
      rw [hsame]
      exact ⟨secret, hown, hopen⟩
    · rw [hframe other _ hsame]
      exact h.opens other found hfound
  there other owner hsome := by
    simp only [load, Option.getD_some, Dict.lookup_set]
    by_cases hsame : other = ref
    · subst hsame
      by_cases howner : owner = item.owner
      · exact ⟨item, if_pos rfl, howner.symm⟩
      · rw [hothers owner howner] at hsome
        cases hsome
    · rw [hframe other owner hsame] at hsome
      rw [if_neg hsame]
      exact h.there other owner hsome
  drawn other found hfound := by
    simp only [load, Option.getD_some, Dict.lookup_set] at hfound
    split_ifs at hfound with hsame
    · rw [hsame]
      exact hdrawn
    · obtain ⟨token, htoken, heq⟩ := h.drawn other found hfound
      exact ⟨token, tokens_snoc ops op ▸ List.mem_append_left _ htoken, heq⟩

/-! ## One step -/

theorem Keeps.put {p : Put} (h : Keeps S ops file) (hfresh : p.token ∉ tokens ops) :
    Keeps S (ops ++ [.put p]) (fileStep S file (.put p)) := by
  by_cases howner : p.owner ≠ ""
  · -- nobody holds a reference that was not drawn
    have hnone : ∀ owner, held p.token.ref owner ops = none := by
      intro owner
      by_contra hheld
      obtain ⟨item, hitem, -⟩ := h.there _ owner (Option.isSome_iff_ne_none.mpr hheld)
      obtain ⟨token, htoken, heq⟩ := h.drawn _ item hitem
      exact hfresh (Token.ref_inj heq ▸ htoken)
    simp only [fileStep, EncryptedFileStore.put, howner, ne_eq, not_false_eq_true, dif_pos,
      Except.toOption, Option.elim_some]
    refine h.write (openItem_sealed p.nonce rfl) ?_ ?_ ?_ ?_
    · rw [held_snoc, heldStep, if_pos ⟨rfl, rfl, howner⟩]
    · intro other hother
      rw [held_snoc, heldStep, if_neg fun hall => hother hall.1.symm, hnone]
    · intro other owner hother
      rw [held_snoc, heldStep, if_neg fun hall => hother hall.2.1.symm]
    · exact ⟨p.token, by simp [tokens_snoc, StoreOp.token?], rfl⟩
  · rw [not_not] at howner
    have hfile : fileStep S file (.put p) = file := by
      simp [fileStep, EncryptedFileStore.put, howner, Except.toOption]
    rw [hfile]
    refine h.same fun ref owner => ?_
    rw [held_snoc, heldStep, if_neg]
    rintro ⟨hsame, -, hne⟩
    exact hne (hsame ▸ howner)

theorem Keeps.rotate {r : Rotate} (h : Keeps S ops file) :
    Keeps S (ops ++ [.rotate r]) (fileStep S file (.rotate r)) := by
  simp only [fileStep, EncryptedFileStore.rotate, bind, Except.bind]
  cases hget : getItem (load file) r.ref r.owner with
  | error e =>
    refine h.same fun ref owner => ?_
    rw [held_snoc, heldStep]
    split_ifs with hsame
    · obtain ⟨rfl, rfl⟩ := hsame
      cases hheld : held r.ref r.owner ops with
      | none => rfl
      | some secret =>
        obtain ⟨item, hitem, howner⟩ := h.there r.ref r.owner (by rw [hheld]; rfl)
        rw [getItem_of_lookup hitem howner] at hget
        cases hget
    · rfl
  | ok item =>
    obtain ⟨hitem, howner⟩ := getItem_ok hget
    obtain ⟨secret, hheld, -⟩ := h.opens r.ref item hitem
    simp only [pure, Except.pure, Except.toOption, Option.getD_some]
    have hsealed : sealed S r.nonce r.secret r.ref r.owner =
        sealed S r.nonce r.secret r.ref item.owner := by rw [howner]
    refine h.write (openItem_sealed r.nonce hsealed) ?_ ?_ ?_ ?_
    · change held r.ref item.owner (ops ++ [.rotate r]) = some r.secret
      rw [held_snoc, heldStep, if_pos ⟨howner.symm, rfl⟩, hheld]
      rfl
    · intro other hother
      have hother' : other ≠ r.owner := fun heq => hother (heq.trans howner.symm)
      rw [held_snoc, heldStep, if_neg fun hall => hother' hall.1.symm]
      have hsome : (held r.ref item.owner ops).isSome := by
        rw [hheld]
        rfl
      exact h.not_held hsome (howner ▸ hother')
    · intro other owner hother
      rw [held_snoc, heldStep, if_neg fun hall => hother hall.2.symm]
    · obtain ⟨token, htoken, heq⟩ := h.drawn r.ref item hitem
      exact ⟨token, tokens_snoc ops _ ▸ List.mem_append_left _ htoken, heq⟩

theorem Keeps.delete {ref owner : String} (h : Keeps S ops file) :
    Keeps S (ops ++ [.delete ref owner]) (fileStep S file (.delete ref owner)) := by
  simp only [fileStep, EncryptedFileStore.delete, bind, Except.bind]
  cases hget : getItem (load file) ref owner with
  | error e =>
    refine h.same fun other o => ?_
    rw [held_snoc, heldStep]
    split_ifs with hsame
    · obtain ⟨rfl, rfl⟩ := hsame
      cases hheld : held ref owner ops with
      | none => rfl
      | some secret =>
        obtain ⟨item, hitem, howner⟩ := h.there ref owner (by rw [hheld]; rfl)
        rw [getItem_of_lookup hitem howner] at hget
        cases hget
    · rfl
  | ok item =>
    obtain ⟨hitem, howner⟩ := getItem_ok hget
    simp only [pure, Except.pure, Except.toOption, Option.getD_some]
    have hframe : ∀ other o, other ≠ ref →
        held other o (ops ++ [.delete ref owner]) = held other o ops := by
      intro other o hother
      rw [held_snoc, heldStep, if_neg fun hall => hother hall.2.symm]
    refine ⟨fun other found hfound => ?_, fun other o hsome => ?_, fun other found hfound => ?_⟩
    · simp only [load, Option.getD_some, Dict.lookup_pop] at hfound
      split_ifs at hfound with hsame
      rw [hframe other _ hsame]
      exact h.opens other found hfound
    · simp only [load, Option.getD_some, Dict.lookup_pop]
      by_cases hsame : other = ref
      · subst hsame
        -- only the owner held it, and does no more
        rw [held_snoc, heldStep] at hsome
        have hdeleted : ¬ (owner = o ∧ other = other) := fun hall => by
          rw [if_pos hall] at hsome
          cases hsome
        have hheld : (held other owner ops).isSome := by
          obtain ⟨secret, hheld, -⟩ := h.opens other item hitem
          rw [← howner, hheld]
          rfl
        have ho : o ≠ owner := fun heq => hdeleted ⟨heq.symm, rfl⟩
        rw [if_neg hdeleted, h.not_held hheld ho] at hsome
        cases hsome
      · rw [hframe other o hsame] at hsome
        rw [if_neg hsame]
        exact h.there other o hsome
    · simp only [load, Option.getD_some, Dict.lookup_pop] at hfound
      split_ifs at hfound with hsame
      obtain ⟨token, htoken, heq⟩ := h.drawn other found hfound
      exact ⟨token, tokens_snoc ops _ ▸ List.mem_append_left _ htoken, heq⟩

/-! ## Whole histories -/

theorem keeps_fileAfter (S : Sealer) (ops : List StoreOp) (hfresh : (tokens ops).Nodup) :
    Keeps S ops (fileAfter S ops) := by
  induction ops using List.reverseRecOn with
  | nil => exact ⟨nofun, nofun, nofun⟩
  | append_singleton ops op ih =>
    rw [tokens_snoc, List.nodup_append] at hfresh
    have hkeeps := ih hfresh.1
    rw [fileAfter, List.foldl_append]
    cases op with
    | put p =>
      exact hkeeps.put fun hdrawn =>
        hfresh.2.2 p.token hdrawn p.token (by simp [StoreOp.token?]) rfl
    | rotate r => exact hkeeps.rotate
    | delete ref owner => exact hkeeps.delete
    | reveal ref owner => exact hkeeps.same fun r o => held_snoc r o ops _

theorem Keeps.reveal_told (h : Keeps S ops file) (ref owner : String) :
    reveal S file ref owner = told (held ref owner ops) := by
  cases hheld : held ref owner ops with
  | some secret =>
    obtain ⟨item, hitem, rfl⟩ := h.there ref owner (by rw [hheld]; rfl)
    obtain ⟨secret', hheld', hopen⟩ := h.opens ref item hitem
    rw [hheld] at hheld'
    cases hheld'
    simp only [reveal, getItem_of_lookup hitem rfl, bind, Except.bind, hopen, told]
  | none =>
    have hget : getItem (load file) ref owner = .error notAvailable := by
      unfold getItem
      cases hitem : (load file).lookup ref with
      | none => rfl
      | some item =>
        refine if_pos fun howner => ?_
        obtain ⟨secret, hheld', -⟩ := h.opens ref item hitem
        rw [howner, hheld] at hheld'
        cases hheld'
    simp only [reveal, hget, bind, Except.bind, told]

theorem heldStep_other {op : StoreOp} {secret : Option String} (h : op.owner ≠ owner) :
    heldStep ref owner secret op = secret := by
  cases op with
  | put p => exact if_neg fun hall => h hall.1
  | rotate r => exact if_neg fun hall => h hall.1
  | delete r o => exact if_neg fun hall => h hall.1
  | reveal r o => rfl

/-- What an owner left depends on that owner's operations. -/
theorem held_filter (ref owner : String) (ops : List StoreOp) :
    held ref owner (ops.filter fun op => op.owner = owner) = held ref owner ops := by
  induction ops using List.reverseRecOn with
  | nil => rfl
  | append_singleton ops op ih =>
    rw [List.filter_append, held_snoc]
    by_cases howner : op.owner = owner
    · rw [List.filter_cons_of_pos (by simpa using howner), List.filter_nil, held_snoc, ih]
    · rw [List.filter_cons_of_neg (by simpa using howner), List.filter_nil, List.append_nil, ih,
        heldStep_other howner]

/-- **Isolation and freshness**: whatever any owners did, a credential is revealed exactly as
    its owner last put or rotated it, and not once it is deleted; the operations of others
    change nothing of it, and it is not revealed to others. -/
theorem reveal_eq (S : Sealer) (ops : List StoreOp) (hfresh : (tokens ops).Nodup)
    (ref owner : String) :
    reveal S (fileAfter S ops) ref owner = told (held ref owner ops) ∧
      held ref owner ops = held ref owner (ops.filter fun op => op.owner = owner) ∧
      ∀ other, other ≠ owner → (held ref owner ops).isSome →
        reveal S (fileAfter S ops) ref other = .error notAvailable := by
  have hkeeps := keeps_fileAfter S ops hfresh
  refine ⟨hkeeps.reveal_told ref owner, (held_filter ref owner ops).symm, ?_⟩
  intro other hother hheld
  rw [hkeeps.reveal_told, hkeeps.not_held hheld hother]
  rfl

-- Two owners, and a secret that is rotated

/-- A sealer that writes the text as it is, with the context of the record in front. -/
def plainSealer : Sealer where
  name := "plain"
  sealBytes _ plaintext aad := aad ++ plaintext
  openBytes ciphertext aad :=
    if (ciphertext.extract 0 aad.size).data = aad.data then
      .ok (ciphertext.extract aad.size ciphertext.size)
    else .error (.raised "InvalidTag")
  open_seal nonce plaintext aad := by
    rw [ByteArray.extract_append_eq_left rfl, if_pos rfl,
      ByteArray.extract_append_eq_right rfl ByteArray.size_append]

def tokenOf (digit : Char) (h : isHexDigit digit = true) : Token where
  text := String.ofList (List.replicate 24 digit)
  hex := by simp [h]
  length := by simp

def putBy (owner secret : String) (token : Token) : StoreOp :=
  .put { secret, owner, authType := .pat, fingerprint := "…", now := "2026-01-01T00:00:00Z", token
         nonce := .empty }

def rotateBy (owner secret ref : String) : StoreOp :=
  .rotate { ref, secret, owner, fingerprint := "…", now := "2026-01-02T00:00:00Z", nonce := .empty }

/-- Ann's reference, and what Ann and Bob do with it. -/
def annRef : String := (tokenOf 'a' isHexDigit_a).ref

def twoOwners : List StoreOp :=
  [putBy "ann" "first" (tokenOf 'a' isHexDigit_a), putBy "bob" "other" (tokenOf 'b' isHexDigit_b),
    rotateBy "bob" "taken" annRef, rotateBy "ann" "second" annRef, .delete annRef "bob",
    .reveal annRef "bob"]

theorem second_secret_revealed :
    reveal plainSealer (fileAfter plainSealer twoOwners) annRef "ann" = .ok "second" ∧
      reveal plainSealer (fileAfter plainSealer twoOwners) annRef "bob" = .error notAvailable := by
  obtain ⟨hown, -, hothers⟩ := reveal_eq plainSealer twoOwners (by decide +kernel) annRef "ann"
  have hheld : held annRef "ann" twoOwners = some "second" := by decide +kernel
  rw [hheld] at hown hothers
  exact ⟨hown, hothers "bob" (by decide) rfl⟩

end EncryptedFileStore

end Git

end Slas
