/-
  Slas.Sop.Glossary

  The project glossary (`slas_sop.glossary`): which terms a text uses, where they are, and the
  sentence that pins their renderings.  Texts are lists of characters; what Unicode says of a
  character is given.
-/

import Mathlib.Data.Char
import Mathlib.Data.List.Infix
import Mathlib.Data.List.Lex
import Mathlib.Data.List.Sort
import Slas.Lib.Regex

namespace Slas

namespace Sop

/-- What the interpreter reads off the tables of Unicode. -/
structure Unicode where
  isAlnum : Char → Bool
  /-- The value of a decimal digit. -/
  decimal : Char → Option Nat
  lower : List Char → List Char
  /-- The same letter but for its case. -/
  sameCase : Char → Char → Bool
  decimal_ascii : ∀ c : Char, c.isDigit = true → decimal c = some (c.toNat - '0'.toNat)

namespace Unicode

variable (U : Unicode)

/-- `\w` -/
def isWord (c : Char) : Bool := U.isAlnum c || c = '_'

/-- `\d` -/
def isDigit (c : Char) : Bool := (U.decimal c).isSome

end Unicode

structure GlossaryTerm where
  en : List Char
  zhHant : List Char
  avoid : List (List Char) := []
  en_ne : en ≠ []
  zhHant_ne : zhHant ≠ []

structure Glossary where
  terms : List GlossaryTerm

open Regex

variable (U : Unicode)

/-- `[A-Za-z0-9]`, in any case. -/
def isLatin (c : Char) : Bool :=
  "ABCDEFGHIJKLMNOPQRSTUVWXYZabcdefghijklmnopqrstuvwxyz0123456789".toList.any (U.sameCase · c)

namespace GlossaryTerm

variable (term : GlossaryTerm)

/-- `pattern`: the term as a whole phrase, a plural tolerated, in any case. -/
def pattern : Re :=
  let letter (c : Char) : Re := .cls (U.sameCase c)
  .all [.notBehind (isLatin U), .all (term.en.map letter),
    .opt (.all [.opt (letter 'e'), letter 's']), .notAhead (.cls (isLatin U))]

def inEnglish (text : List Char) : Prop :=
  (Patterns.search (term.pattern U).pattern text).isSome = true

instance (text : List Char) : Decidable (term.inEnglish U text) := by
  unfold inEnglish
  infer_instance

def inChinese (text : List Char) : Prop := term.zhHant <:+: text

instance (text : List Char) : Decidable (term.inChinese text) := by
  unfold inChinese
  infer_instance

end GlossaryTerm

/-- Where `part` is in `text`: overlapping places too. -/
def places (part text : List Char) : List Match :=
  ((List.range text.length).filter fun start => part.isPrefixOf (text.drop start)).map (⟨·, part⟩)

namespace Glossary

variable (glossary : Glossary)

/-- `terms_in`: the longest English phrase first. -/
def termsIn (text : List Char) : List GlossaryTerm :=
  (glossary.terms.filter (·.inEnglish U text)).insertionSort fun a b =>
    b.en.length < a.en.length ∨
      (a.en.length = b.en.length ∧ U.lower a.en ≤ U.lower b.en)

/-- `_glossary_spans` -/
def spans (text : List Char) : List Match :=
  glossary.terms.flatMap fun term =>
    finditer (term.pattern U).pattern text ++ places term.zhHant text

end Glossary

end Sop

end Slas
