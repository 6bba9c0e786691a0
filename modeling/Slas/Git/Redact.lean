/-
  Slas.Git.Redact

  `redact` and `find_secrets` of `slas_git.redact`: every shape of `SECRET_SHAPES` in turn, over
  what the ones before it left.
-/

import Slas.Git.Shapes

namespace Slas

namespace Git

open Regex

/-- `\1://\2:`, of an address with a password. -/
def keptOfUrl (group : List Char) : List Char :=
  let scheme := group.takeWhile (· ≠ ':')
  let user := ((group.drop scheme.length).drop 3).takeWhile (· ≠ ':')
  scheme ++ "://".toList ++ user ++ [':']

/-- `\1\2`, of a name, a mark and what stands behind it. -/
def keptOfPair (group : List Char) : List Char :=
  let isName (c : Char) : Bool := !(Lines.isSpace c || c == ':' || c == '=')
  let mark := (group.dropWhile isName).dropWhile Lines.isSpace
  group.takeWhile isName ++ (group.dropWhile isName).takeWhile Lines.isSpace ++ mark.take 1 ++
    (mark.drop 1).takeWhile Lines.isSpace

def marker (name : String) : List Char := "[redacted:".toList ++ name.toList ++ [']']

/-- What a match of a shape is replaced by. -/
def replacement (name : String) (group : List Char) : List Char :=
  if name = "basic_auth_url" then keptOfUrl group ++ "[redacted]@".toList
  else if name = "authorization_header" ∨ name = "askpass_answer" then
    keptOfPair group ++ marker name
  else marker name

/-- Every match of one shape. -/
def redactShape (shape : String × Re) (text : List Char) : List Char :=
  (Regex.sub shape.2.pattern (fun _ found => ((), replacement shape.1 found.group)) () text).2

variable (U : Unicode)

/-- `redact` -/
def redact (text : String) : String :=
  String.ofList ((SECRET_SHAPES U).foldl (fun out shape => redactShape shape out) text.toList)

end Git

end Slas
