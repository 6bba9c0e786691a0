/-
  Slas.Git.Shapes

  The shapes of credentials (`SECRET_SHAPES` of `slas_git.redact`).
-/

import Slas.Lib.Lines
import Slas.Lib.Regex

namespace Slas

namespace Git

open Regex

/-- What Python takes from the Unicode database. -/
structure Unicode where
  /-- The class `\w`. -/
  isWord : Char → Bool
  /-- The value of a decimal digit. -/
  decimal : Char → Option Nat
  isWord_ascii : ∀ c : Char, c.toNat < 128 → isWord c = (c.isAlphanum || c == '_')
  decimal_ascii : ∀ c : Char, c.toNat < 128 → decimal c =
    if c.isDigit then some (c.toNat - '0'.toNat) else none

namespace Unicode

theorem ascii_isWord (c : Char) (_ : c.toNat < 128) :
    (c.isAlphanum || c == '_') = (c.isAlphanum || c == '_') := rfl

theorem ascii_decimal (c : Char) (_ : c.toNat < 128) :
    (if c.isDigit then some (c.toNat - '0'.toNat) else none) =
      if c.isDigit then some (c.toNat - '0'.toNat) else none := rfl

/-- As far as ASCII goes. -/
def ascii : Unicode where
  isWord c := c.isAlphanum || c == '_'
  decimal c := if c.isDigit then some (c.toNat - '0'.toNat) else none
  isWord_ascii := ascii_isWord
  decimal_ascii := ascii_decimal

variable (U : Unicode)

/-- The class `\d`. -/
def isDigit (c : Char) : Bool := (U.decimal c).isSome

/-- `int`, of digits. -/
def value (digits : List Char) : Nat :=
  digits.foldl (fun n c => 10 * n + (U.decimal c).getD 0) 0

end Unicode

/-! ## Pieces of the shapes -/

/-- One letter in any case, with the letters that have more than two forms. -/
def anyCase (letter : Char) : Re :=
  .cls fun c => Patterns.sameLetter letter c || (letter == 'k' && c == '\u212a')

/-- The letters, in any case; other characters stand for themselves. -/
def lettersOf (text : String) : Re := .all (text.toList.map anyCase)

def isAsciiAlphanum (c : Char) : Bool :=
  ('A' ≤ c && c ≤ 'Z') || ('a' ≤ c && c ≤ 'z') || ('0' ≤ c && c ≤ '9')

/-- At least so many characters of a class. -/
def atLeast (n : Nat) (p : Char → Bool) : Re := .seq (.times n (.cls p)) (.star (.cls p))

/-- `-----BEGIN [A-Z ]*PRIVATE KEY-----`, and the like with `END`. -/
def keyLine (word : String) : Re :=
  .all [.literal "-----", .literal word, .char ' ',
    .star (.cls fun c => c == ' ' || ('A' ≤ c && c ≤ 'Z')), .literal "PRIVATE KEY-----"]

section Shapes

variable (U : Unicode)

/-- `SECRET_SHAPES`.  The text of a private key is the shortest one before a last line. -/
def SECRET_SHAPES : List (String × Re) :=
  let edge : Re := .boundary U.isWord
  let space : Re := .star (.cls Lines.isSpace)
  [("private_key",
    .all [keyLine "BEGIN", .star (.seq (.notAhead (keyLine "END")) (.cls fun _ => true)),
      keyLine "END"]),
   ("private_key_header", keyLine "BEGIN"),
   ("gitlab_pat",
    .all [edge, .literal "glpat-", atLeast 16 fun c => isAsciiAlphanum c || c == '_' || c == '-',
      edge]),
   ("github_token",
    .all [edge, .anyOf (["ghp", "gho", "ghu", "ghs", "ghr"].map .literal), .char '_',
      atLeast 30 isAsciiAlphanum, edge]),
   ("github_fine_grained",
    .all [edge, .literal "github_pat_", atLeast 60 fun c => isAsciiAlphanum c || c == '_', edge]),
   ("basic_auth_url",
    .all [edge, .alt (.seq (lettersOf "http") (.opt (lettersOf "s"))) (lettersOf "ssh"),
      .literal "://", .plus (.cls fun c => !(c == '/' || Lines.isSpace c || c == ':' || c == '@')),
      .char ':', .plus (.cls fun c => !(c == '@' || Lines.isSpace c || c == '/')), .char '@']),
   ("authorization_header",
    .all [edge, .alt (lettersOf "authorization") (lettersOf "private-token"), space,
      .cls fun c => c == ':' || c == '=', space, .plus (.cls fun c => !Lines.isSpace c)]),
   ("askpass_answer",
    .all [edge, .anyOf (["password", "token", "secret"].map lettersOf), space,
      .cls fun c => c == '=' || c == ':', space,
      atLeast 8 fun c => !(Lines.isSpace c || c == ',' || c == ';')])]

end Shapes

end Git

end Slas
