/-
  Slas.Lib.LinkTree

  Trees with symbolic links.  A path is walked piece by piece; at a link the walk goes on
  with the pieces of its target.  A walk stays in the tree if no target has more steps up
  than it has come down, counted without following links, and no target has a step up
  after a link: `not_outside_of_walks`.
-/

import Mathlib.Data.List.Induction
import Mathlib.Logic.Relation

namespace LinkTree

variable {N : Type*}

/-- A piece of a path. -/
inductive Piece (N : Type*) where
  | up
  | name (n : N)
  deriving DecidableEq

/-- Where a link leads. -/
inductive Target (N : Type*) where
  | absolute
  | relative (pieces : List (Piece N))

/-- The places of a tree that are links, and those that are directories. -/
structure Tree (N : Type*) where
  link : List N → Option (Target N)
  isDir : List N → Bool

/-- Where a walk is, and what is left of its path. -/
structure Walk (N : Type*) where
  dir : List N
  todo : List (Piece N)

variable (T : Tree N)

inductive Step : Walk N → Walk N → Prop where
  | up (dir : List N) (n : N) (todo : List (Piece N)) :
      Step ⟨dir ++ [n], .up :: todo⟩ ⟨dir, todo⟩
  | enter (dir : List N) (n : N) (todo : List (Piece N)) : T.isDir (dir ++ [n]) = true →
      Step ⟨dir, .name n :: todo⟩ ⟨dir ++ [n], todo⟩
  | follow (dir : List N) (n : N) (pieces todo : List (Piece N)) :
      T.link (dir ++ [n]) = some (.relative pieces) →
      Step ⟨dir, .name n :: todo⟩ ⟨dir, pieces ++ todo⟩

/-- The next step of the walk leaves the tree: up from its root, or along an absolute link. -/
def Outside (w : Walk N) : Prop :=
  (w.dir = [] ∧ w.todo.head? = some .up) ∨
    ∃ n, w.todo.head? = some (.name n) ∧ T.link (w.dir ++ [n]) = some .absolute

/-- From so many levels down, the pieces never lead above the root, if none is a link. -/
def Stays : Nat → List (Piece N) → Prop
  | _, [] => True
  | 0, .up :: _ => False
  | n + 1, .up :: pieces => Stays n pieces
  | n, .name _ :: pieces => Stays (n + 1) pieces

/-- From a directory, the pieces have a step up after a link. -/
def climbs [DecidableEq N] : List N → List (Piece N) → Bool
  | _, [] => false
  | dir, .up :: pieces => climbs dir.dropLast pieces
  | dir, .name n :: pieces =>
    if (T.link (dir ++ [n])).isSome then pieces.contains .up else climbs (dir ++ [n]) pieces

/-- A link that a walk can follow. -/
structure Sound [DecidableEq N] (place : List N) (pieces : List (Piece N)) : Prop where
  stays : Stays (place.length - 1) pieces
  level : climbs T place.dropLast pieces = false

variable {T} {w w' : Walk N} {dir : List N} {n : N} {pieces todo : List (Piece N)}

@[simp] theorem stays_up : Stays (dir ++ [n]).length (.up :: pieces) ↔ Stays dir.length pieces := by
  rw [List.length_append, List.length_singleton, Stays]

@[simp] theorem stays_name :
    Stays dir.length (.name n :: pieces) ↔ Stays (dir ++ [n]).length pieces := by
  rw [List.length_append, List.length_singleton]
  cases dir <;> rfl

/-- More levels down are as good. -/
theorem Stays.mono {k m : Nat} (hkm : k ≤ m) (h : Stays k pieces) : Stays m pieces := by
  induction pieces generalizing k m with
  | nil => cases m <;> trivial
  | cons piece pieces ih =>
    cases piece with
    | up =>
      cases k with
      | zero => exact absurd h (by simp [Stays])
      | succ k =>
        cases m with
        | zero => omega
        | succ m => exact ih (by omega) h
    | name n =>
      have hnext : Stays (k + 1) pieces := by cases k <;> exact h
      have hmore : Stays (m + 1) pieces := ih (by omega) hnext
      cases m <;> exact hmore

variable [DecidableEq N]

/-- What is left of a path: pieces that are still to be counted, and then names. -/
def Inside (T : Tree N) (w : Walk N) : Prop :=
  ∃ counted rest, w.todo = counted ++ rest ∧ .up ∉ rest ∧ Stays w.dir.length counted ∧
    climbs T w.dir counted = false

theorem inside_of_names (h : .up ∉ todo) : Inside T ⟨dir, todo⟩ := by
  refine ⟨[], todo, rfl, h, ?_, rfl⟩
  cases dir <;> trivial

theorem step_inside
    (hsound : ∀ place pieces, T.link place = some (.relative pieces) → Sound T place pieces)
    (hstep : Step T w w') (h : Inside T w) : Inside T w' := by
  obtain ⟨counted, rest, htodo, hrest, hstays, hclimbs⟩ := h
  cases hstep with
  | up dir n todo =>
    cases counted with
    | nil =>
      have hup : .up :: todo = rest := htodo
      exact absurd (hup ▸ List.mem_cons_self) hrest
    | cons piece counted =>
      obtain ⟨rfl, rfl⟩ := List.cons.inj htodo
      refine ⟨counted, rest, rfl, hrest, stays_up.mp hstays, ?_⟩
      simpa [climbs] using hclimbs
  | enter dir n todo hdir =>
    cases counted with
    | nil =>
      rw [List.nil_append] at htodo
      subst htodo
      exact inside_of_names fun hup => hrest (List.mem_cons_of_mem _ hup)
    | cons piece counted =>
      obtain ⟨rfl, rfl⟩ := List.cons.inj htodo
      rw [climbs] at hclimbs
      split_ifs at hclimbs with hlink
      · refine inside_of_names fun hup => ?_
        rcases List.mem_append.mp hup with hup | hup
        · simp [hup] at hclimbs
        · exact hrest hup
      · exact ⟨counted, rest, rfl, hrest, stays_name.mp hstays, hclimbs⟩
  | follow dir n pieces todo hlink =>
    obtain ⟨hlevels, hno⟩ := hsound _ _ hlink
    rw [List.length_append, List.length_singleton, Nat.add_sub_cancel] at hlevels
    rw [List.dropLast_concat] at hno
    refine ⟨pieces, todo, rfl, fun hup => ?_, hlevels, hno⟩
    cases counted with
    | nil =>
      have hnames : .name n :: todo = rest := htodo
      exact hrest (hnames ▸ List.mem_cons_of_mem _ hup)
    | cons piece counted =>
      obtain ⟨rfl, rfl⟩ := List.cons.inj htodo
      rw [climbs, hlink, Option.isSome_some, if_pos rfl] at hclimbs
      rcases List.mem_append.mp hup with hup | hup
      · simp [hup] at hclimbs
      · exact hrest hup

theorem not_outside_of_inside (hrelative : ∀ place, T.link place ≠ some .absolute)
    (h : Inside T w) : ¬ Outside T w := by
  obtain ⟨counted, rest, htodo, hrest, hstays, -⟩ := h
  rintro (⟨hroot, hup⟩ | ⟨n, -, hlink⟩)
  · cases counted with
    | nil =>
      rw [htodo, List.nil_append] at hup
      exact hrest (List.mem_of_head? hup)
    | cons piece counted =>
      rw [htodo, List.cons_append, List.head?_cons] at hup
      cases Option.some.inj hup
      rw [hroot] at hstays
      exact hstays
  · exact hrelative _ hlink

/-- **Walks stay inside**, along links that are all relative and sound. -/
theorem not_outside_of_walks (hrelative : ∀ place, T.link place ≠ some .absolute)
    (hsound : ∀ place pieces, T.link place = some (.relative pieces) → Sound T place pieces)
    {path : List N} (hwalk : Relation.ReflTransGen (Step T) ⟨[], path.map .name⟩ w) :
    ¬ Outside T w := by
  have hinside : Inside T w := by
    induction hwalk with
    | refl => exact inside_of_names (by simp)
    | tail _ hstep ih => exact step_inside hsound hstep ih
  exact not_outside_of_inside hrelative hinside

end LinkTree
