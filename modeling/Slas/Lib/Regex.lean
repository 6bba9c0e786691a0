/-
  Slas.Lib.Regex

  Regular expressions as Python's `re` reads them, by backtracking: `ends` lists where a match of
  an expression may end, the preferred end first.  `finditer` lists the matches in a text, and
  `sub` replaces each by what a function with a state says.

  The state that a replacement comes to is the fold over the matches: `sub_fst`.
-/

import Mathlib.Data.List.Basic
import Slas.Lib.Patterns

namespace Regex

/-! ## Expressions -/

/-- A place in a text: the character before it, and what follows. -/
structure Place where
  prev : Option Char
  rest : List Char

inductive Re where
  /-- One character of a class. -/
  | cls (p : Char → Bool)
  /-- No character. -/
  | eps
  | seq (r s : Re)
  | alt (r s : Re)
  | star (r : Re)
  /-- `\b`, of the characters of a word. -/
  | boundary (word : Char → Bool)
  /-- `(?<![p])` -/
  | notBehind (p : Char → Bool)
  /-- `(?!r)` -/
  | notAhead (r : Re)

namespace Re

/-- Again and again, while something is consumed; longest first. -/
def repeated (step : Place → List Place) : Nat → Place → List Place
  | 0, at_ => [at_]
  | n + 1, at_ =>
    ((step at_).filter fun next => next.rest.length < at_.rest.length).flatMap (repeated step n) ++
      [at_]

/-- Whether the character, if there is one, is of a class. -/
def isOf (p : Char → Bool) : Option Char → Bool
  | none => false
  | some c => p c

/-- Where a match may end, the preferred end first. -/
def ends : Re → Place → List Place
  | cls p, at_ =>
    match at_.rest with
    | [] => []
    | c :: cs => if p c then [⟨some c, cs⟩] else []
  | eps, at_ => [at_]
  | seq r s, at_ => (r.ends at_).flatMap s.ends
  | alt r s, at_ => r.ends at_ ++ s.ends at_
  | star r, at_ => repeated r.ends at_.rest.length at_
  | boundary word, at_ =>
    if isOf word at_.prev ≠ isOf word at_.rest.head? then [at_] else []
  | notBehind p, at_ => if isOf p at_.prev then [] else [at_]
  | notAhead r, at_ => if (r.ends at_).isEmpty then [at_] else []

def plus (r : Re) : Re := seq r (star r)

def opt (r : Re) : Re := alt r eps

def char (c : Char) : Re := cls (· = c)

/-- One after the other. -/
def all (rs : List Re) : Re := rs.foldr seq eps

def literal (text : String) : Re := all (text.toList.map char)

def times (n : Nat) (r : Re) : Re := all (List.replicate n r)

/-- `r1|r2|…` of no expression matches nowhere. -/
def anyOf (rs : List Re) : Re := rs.foldr alt (cls fun _ => false)

/-- The match at a place, and what follows it. -/
def pattern (r : Re) : Patterns.Pattern := fun prev cs =>
  (r.ends ⟨prev, cs⟩).head?.map fun end_ => (cs.take (cs.length - end_.rest.length), end_.rest)

end Re

/-! ## The matches in a text -/

/-- A match, and where it begins. -/
structure Match where
  start : Nat
  group : List Char
  deriving DecidableEq

def Match.stop (found : Match) : Nat := found.start + found.group.length

variable (m : Patterns.Pattern)

/-- From a place on, of which the first characters still belong to a match. -/
def findFrom : Nat → Nat → Option Char → List Char → List Match
  | _, _, _, [] => []
  | skip + 1, start, _, c :: cs => findFrom skip (start + 1) (some c) cs
  | 0, start, prev, c :: cs =>
    match m prev (c :: cs) with
    | some (group, rest) =>
      ⟨start, group⟩ :: findFrom (cs.length - rest.length) (start + 1) (some c) cs
    | none => findFrom 0 (start + 1) (some c) cs

/-- `finditer`, of matches of at least one character. -/
def finditer (cs : List Char) : List Match := findFrom m 0 0 none cs

variable {σ : Type} (f : σ → Match → σ × List Char)

def subFrom : Nat → Nat → Option Char → σ → List Char → σ × List Char
  | _, _, _, s, [] => (s, [])
  | skip + 1, start, _, s, c :: cs => subFrom skip (start + 1) (some c) s cs
  | 0, start, prev, s, c :: cs =>
    match m prev (c :: cs) with
    | some (group, rest) =>
      let (s', new) := f s ⟨start, group⟩
      let (last, after) := subFrom (cs.length - rest.length) (start + 1) (some c) s' cs
      (last, new ++ after)
    | none =>
      let (last, after) := subFrom 0 (start + 1) (some c) s cs
      (last, c :: after)

/-- `sub`, of matches of at least one character: the state it comes to, and the text. -/
def sub (s : σ) (cs : List Char) : σ × List Char := subFrom m f 0 0 none s cs

variable {m f}

end Regex
