/-
  Slas.Lib.FileTree

  Trees of files, directories and symbolic links, as `pathlib` works on them.

  `resolve` follows the links of a path, also where nothing is; a path that is resolved leads
  over no link (`plain_resolve`), so that what is written there is written there.  `mkdirs`,
  `write` and `unlink` say what they change, place by place.
-/

import Slas.Lib.Disk
import Slas.Lib.LinkTree
import Slas.Lib.Text

namespace FileTree

open LinkTree (Piece)

variable {C : Type*}

inductive Node (C : Type*) where
  | file (content : C)
  | dir
  | link (text : String)

/-- What is at each place: a place below another one needs a directory there. -/
structure Tree (C : Type*) where
  node : Place → Option (Node C)
  /-- Where the links are. -/
  links : List Place
  top : node [] = some .dir
  grounded : ∀ p name, node (p ++ [name]) ≠ none → node p = some .dir
  listed : ∀ p text, node p = some (.link text) → p ∈ links

inductive OsError where
  | symlinkLoop
  | nullByte
  | isADirectory
  | notADirectory
  deriving DecidableEq

namespace Tree

variable (t : Tree C)

/-- The text of a link. -/
def link (p : Place) : Option String :=
  match t.node p with
  | some (.link text) => some text
  | _ => none

def isDir (p : Place) : Bool :=
  match t.node p with
  | some .dir => true
  | _ => false

/-- Nothing is there. -/
def isFree (p : Place) : Bool := (t.node p).isNone

end Tree

/-! ## Paths -/

/-- The pieces of a path. -/
def pieces (path : String) : List (Piece String) :=
  (Text.names path).map fun name => if name = ".." then .up else .name name

/-- Where the pieces lead from a place, when it is known where each link leads. -/
def walk (link : Place → Option String) (follow : Place → String → Except OsError Place) :
    Place → List (Piece String) → Except OsError Place
  | at_, [] => .ok at_
  | at_, .up :: rest => walk link follow at_.dropLast rest
  | at_, .name name :: rest =>
    if Disk.Usable name then
      match link (at_ ++ [name]) with
      | none => walk link follow (at_ ++ [name]) rest
      | some text =>
        match follow at_ text with
        | .ok next => walk link follow next rest
        | .error e => .error e
    else .error .nullByte

/-- Where the pieces lead, along links in so many links. -/
def realpath (link : Place → Option String) : Nat → Place → List (Piece String) →
    Except OsError Place
  | 0 => walk link fun _ _ => .error .symlinkLoop
  | n + 1 => walk link fun at_ text =>
    realpath link n (if Text.root text = [] then at_ else []) (pieces text)

/-- `resolve`: a link within more links than there are is in a loop. -/
def resolve (t : Tree C) (at_ : Place) (path : List (Piece String)) : Except OsError Place :=
  realpath t.link t.links.length at_ path

/-- No part of the path is a link. -/
def Plain (link : Place → Option String) (p : Place) : Prop := ∀ q, q <+: p → link q = none

variable {link : Place → Option String} {p q at_ : Place} {path : List (Piece String)} {n : Nat}

theorem Plain.of_prefix (h : Plain link p) (hq : q <+: p) : Plain link q :=
  fun r hr => h r (hr.trans hq)

theorem Plain.concat {name : String} (h : Plain link p) (hname : link (p ++ [name]) = none) :
    Plain link (p ++ [name]) := by
  intro q hq
  rcases List.prefix_concat_iff.mp hq with rfl | hq
  · exact hname
  · exact h q hq

theorem plain_walk {follow : Place → String → Except OsError Place}
    (hfollow : ∀ at_ text p, Plain link at_ → follow at_ text = .ok p → Plain link p)
    (hat : Plain link at_) (h : walk link follow at_ path = .ok p) : Plain link p := by
  induction path generalizing at_ with
  | nil =>
    cases h
    exact hat
  | cons piece rest ih =>
    cases piece with
    | up => exact ih (hat.of_prefix (List.dropLast_prefix at_)) h
    | name name =>
      rw [walk] at h
      split_ifs at h with husable
      cases hlink : link (at_ ++ [name]) with
      | none =>
        rw [hlink] at h
        exact ih (hat.concat hlink) h
      | some text =>
        rw [hlink] at h
        dsimp only at h
        cases hnext : follow at_ text with
        | error e =>
          rw [hnext] at h
          cases h
        | ok next =>
          rw [hnext] at h
          exact ih (hfollow at_ text next hat hnext) h

theorem plain_realpath (htop : link [] = none) (hat : Plain link at_)
    (h : realpath link n at_ path = .ok p) : Plain link p := by
  induction n generalizing at_ path p with
  | zero =>
    rw [realpath] at h
    exact plain_walk (fun _ _ _ _ h => absurd h (by simp)) hat h
  | succ n ih =>
    rw [realpath] at h
    refine plain_walk (fun at_ text p hat h => ih ?_ h) hat h
    split_ifs
    · exact hat
    · intro q hq
      rw [List.prefix_nil.mp hq]
      exact htop

namespace Tree

variable {t t' : Tree C}

theorem isDir_iff : t.isDir p = true ↔ t.node p = some .dir := by
  unfold isDir
  split
  · rename_i h
    exact iff_of_true rfl h
  · rename_i h
    exact iff_of_false Bool.false_ne_true fun hdir => h hdir

theorem isFree_iff : t.isFree p = true ↔ t.node p = none := Option.isNone_iff_eq_none

theorem link_of_isDir (h : t.node p = some .dir) : t.link p = none := by
  rw [link, h]

theorem link_congr (h : t'.node q = t.node q) : t'.link q = t.link q := by
  rw [link, link, h]

theorem link_eq_some {text : String} : t.link p = some text ↔ t.node p = some (.link text) := by
  unfold link
  split
  · rename_i h
    rw [h]
    simp
  · rename_i h
    exact iff_of_false (by simp) fun hlink => h _ hlink

/-- Above what is there are directories. -/
theorem isDir_above (hp : t.node p ≠ none) (hq : q <+: p) (hne : q ≠ p) :
    t.node q = some .dir := by
  induction p using List.reverseRecOn with
  | nil => exact absurd (List.prefix_nil.mp hq) hne
  | append_singleton p name ih =>
    have hparent := t.grounded p name hp
    rcases List.prefix_concat_iff.mp hq with rfl | hq
    · exact absurd rfl hne
    · by_cases heq : q = p
      · rw [heq]
        exact hparent
      · exact ih (by rw [hparent]; exact Option.some_ne_none _) hq heq

/-- A directory is reached over no link. -/
theorem plain_of_isDir (h : t.node p = some .dir) : Plain t.link p := by
  intro q hq
  by_cases heq : q = p
  · rw [heq]
    exact link_of_isDir h
  · exact link_of_isDir (isDir_above (by rw [h]; exact Option.some_ne_none _) hq heq)

end Tree

/-- **What is resolved leads over no link.** -/
theorem plain_resolve {t : Tree C} (hat : t.node at_ = some .dir)
    (h : resolve t at_ path = .ok p) : Plain t.link p :=
  plain_realpath (Tree.link_of_isDir t.top) (Tree.plain_of_isDir hat) h

/-! ## Changes -/

namespace Tree

variable (t : Tree C) {t' : Tree C}

theorem grounded_mkdirs {p : Place} (r : Place) (name : String)
    (h : (if r ++ [name] <+: p then some (Node.dir : Node C) else t.node (r ++ [name])) ≠ none) :
    (if r <+: p then some Node.dir else t.node r) = some .dir := by
  split_ifs at h with hprefix
  · exact if_pos ((List.prefix_append r [name]).trans hprefix)
  · rw [t.grounded r name h, ite_self]

theorem listed_mkdirs {p : Place} (r : Place) (text : String)
    (h : (if r <+: p then some (Node.dir : Node C) else t.node r) = some (.link text)) :
    r ∈ t.links := by
  split_ifs at h with hprefix
  · cases h
  · exact t.listed r text h

/-- `mkdir`, with the parents, of what may be there already. -/
def mkdirs (p : Place) : Except OsError (Tree C) :=
  if ∀ q ∈ p.inits, t.isFree q || t.isDir q then
    .ok
      { node := fun q => if q <+: p then some .dir else t.node q
        links := t.links
        top := if_pos List.nil_prefix
        grounded := t.grounded_mkdirs
        listed := t.listed_mkdirs }
  else .error .notADirectory

theorem top_put {p : Place} (node : Option (Node C)) (hp : t.isDir p = false) :
    (if [] = p then node else t.node []) = some .dir := by
  rw [if_neg, t.top]
  rintro rfl
  rw [isDir_iff.mpr t.top] at hp
  cases hp

theorem grounded_put {p : Place} {node : Option (Node C)} (hp : t.isDir p = false)
    (hparent : node = none ∨ t.isDir p.dropLast = true) (r : Place) (name : String)
    (h : (if r ++ [name] = p then node else t.node (r ++ [name])) ≠ none) :
    (if r = p then node else t.node r) = some .dir := by
  split_ifs at h with hsame
  · subst hsame
    rw [List.dropLast_concat] at hparent
    rw [if_neg (by simp)]
    exact isDir_iff.mp (hparent.resolve_left h)
  · have hdir := t.grounded r name h
    rw [if_neg, hdir]
    rintro rfl
    rw [isDir_iff.mpr hdir] at hp
    cases hp

theorem listed_put {p : Place} {node : Option (Node C)} (hnode : ∀ text, node ≠ some (.link text))
    (r : Place) (text : String) (h : (if r = p then node else t.node r) = some (.link text)) :
    r ∈ t.links := by
  split_ifs at h
  · exact absurd h (hnode text)
  · exact t.listed r text h

theorem map_file_ne_link (content : Option C) (text : String) :
    content.map Node.file ≠ some (.link text) := by
  cases content <;> simp

/-- A file, or nothing, at a place. -/
def put (p : Place) (content : Option C) (hp : t.isDir p = false)
    (hparent : content.map Node.file = none ∨ t.isDir p.dropLast = true) : Tree C where
  node q := if q = p then content.map .file else t.node q
  links := t.links
  top := t.top_put _ hp
  grounded := t.grounded_put hp hparent
  listed := t.listed_put (map_file_ne_link content)

/-- `write_text` -/
def write (p : Place) (content : C) : Except OsError (Tree C) :=
  if h : t.isDir p = false ∧ t.isDir p.dropLast = true then
    .ok (t.put p (some content) h.1 (Or.inr h.2))
  else if t.isDir p then .error .isADirectory
  else .error .notADirectory

/-- `unlink`, of what is there. -/
def unlink (p : Place) : Except OsError (Tree C) :=
  if h : t.isDir p = false then .ok (t.put p none h (Or.inl rfl)) else .error .isADirectory

variable {t}

/-- The links are the same, so that every path leads where it led. -/
structure SameLinks (t t' : Tree C) : Prop where
  links : t'.links = t.links
  link : t'.link = t.link

theorem SameLinks.refl (t : Tree C) : SameLinks t t := ⟨rfl, rfl⟩

theorem SameLinks.trans {t'' : Tree C} (h : SameLinks t t') (h' : SameLinks t' t'') :
    SameLinks t t'' := ⟨h'.links.trans h.links, h'.link.trans h.link⟩

theorem SameLinks.resolve (h : SameLinks t t') (at_ : Place) (path : List (Piece String)) :
    resolve t' at_ path = resolve t at_ path := by
  rw [FileTree.resolve, h.links, h.link]
  rfl

theorem mkdirs_ok (h : ∀ q, q <+: p → t.node q = none ∨ t.node q = some .dir) :
    ∃ t', t.mkdirs p = .ok t' ∧ SameLinks t t' ∧
      ∀ q, t'.node q = if q <+: p then some .dir else t.node q := by
  have hfree : ∀ q ∈ p.inits, (t.isFree q || t.isDir q) = true := fun q hq => by
    rw [Bool.or_eq_true, isFree_iff, isDir_iff]
    exact h q ((List.mem_inits q p).mp hq)
  refine ⟨_, if_pos hfree, ⟨rfl, funext fun q => ?_⟩, fun q => rfl⟩
  by_cases hq : q <+: p
  · have hnone : t.link q = none := by
      rcases h q hq with hnone | hdir
      · rw [link, hnone]
      · exact link_of_isDir hdir
    rw [hnone]
    exact link_of_isDir (if_pos hq)
  · exact link_congr (if_neg hq)

theorem mkdirs_error (hq : q <+: p) (hnone : t.node q ≠ none) (hdir : t.node q ≠ some .dir) :
    t.mkdirs p = .error .notADirectory := by
  refine if_neg fun h => ?_
  have hfree := h q ((List.mem_inits q p).mpr hq)
  rw [Bool.or_eq_true, isFree_iff, isDir_iff] at hfree
  exact hfree.elim hnone hdir

theorem sameLinks_put {content : Option C} {hp : t.isDir p = false}
    {hparent : content.map Node.file = none ∨ t.isDir p.dropLast = true} (hlink : t.link p = none) :
    SameLinks t (t.put p content hp hparent) := by
  refine ⟨rfl, funext fun q => ?_⟩
  by_cases hq : q = p
  · rw [hq, hlink, link]
    have hnode : (t.put p content hp hparent).node p = content.map .file := if_pos rfl
    rw [hnode]
    cases content <;> rfl
  · exact link_congr (if_neg hq)

theorem write_ok (content : C) (hp : t.node p ≠ some .dir) (hlink : t.link p = none)
    (hparent : t.node p.dropLast = some .dir) :
    ∃ t', t.write p content = .ok t' ∧ SameLinks t t' ∧
      ∀ q, t'.node q = if q = p then some (.file content) else t.node q := by
  have hdir : t.isDir p = false := Bool.eq_false_iff.mpr fun h => hp (isDir_iff.mp h)
  exact ⟨_, dif_pos ⟨hdir, isDir_iff.mpr hparent⟩, sameLinks_put hlink, fun q => rfl⟩

theorem unlink_ok (hp : t.node p ≠ some .dir) (hlink : t.link p = none) :
    ∃ t', t.unlink p = .ok t' ∧ SameLinks t t' ∧
      ∀ q, t'.node q = if q = p then none else t.node q := by
  have hdir : t.isDir p = false := Bool.eq_false_iff.mpr fun h => hp (isDir_iff.mp h)
  exact ⟨_, dif_pos hdir, sameLinks_put hlink, fun q => rfl⟩

theorem unlink_error (hp : t.node p = some .dir) : t.unlink p = .error .isADirectory := by
  have hdir := isDir_iff.mpr hp
  exact dif_neg (by rw [hdir]; exact Bool.true_eq_false.mp)

end Tree

end FileTree
