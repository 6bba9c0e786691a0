/-
  Slas.Fetch.Hub

  What the model hub is asked and what it answers (`slas_fetch.fetch`): the commit of a
  revision, the listing of its files, and the bytes of one file, in as many requests as it
  takes.

  The hub is not trusted: a listing may name any path, and a file request may be answered with
  any bytes.
-/

import Slas.Kernel.World
import Slas.Lib.Disk
import Slas.Lib.Text

namespace Slas

namespace Fetch

abbrev Bytes := List UInt8

/-- `hashlib`: the sha256 in hexadecimal, and the git blob id. -/
structure Hashes where
  sha256 : Bytes → {s : String // IsSha256 s}
  blobSha1 : Bytes → String

/-- The name of a directory right under the models'. -/
def IsDirName (s : String) : Prop := Text.names s = [s] ∧ s ≠ ".." ∧ Disk.Usable s

instance : DecidablePred IsDirName := fun _ => inferInstanceAs (Decidable (_ ∧ _ ∧ _))

structure Source where
  path : String
  repo : String
  revision : String := "main"
  directory : IsDirName path

structure RemoteFile where
  path : String
  size : Int
  sha256 : Option String
  blobOid : Option String := none
  deriving DecidableEq

/-- `lfs` of an entry, when it is there and not empty. -/
structure LfsPointer where
  oid : Option String := none
  size : Option Int := none

/-- One entry of the hub's listing. -/
structure TreeEntry where
  type : String
  path : String
  size : Option Int := none
  oid : Option String := none
  lfs : Option LfsPointer := none

/-- A text that Python counts as true. -/
def truthy : Option String → Option String := Option.filter fun s => s ≠ ""

/-- A number that Python counts as true. -/
def truthyInt : Option Int → Option Int := Option.filter fun n => n ≠ 0

def RemoteFile.ofEntry (entry : TreeEntry) : RemoteFile where
  path := entry.path
  size := (truthyInt entry.size).getD ((truthyInt (entry.lfs.bind (·.size))).getD 0)
  sha256 := truthy (entry.lfs.bind (·.oid))
  blobOid := if entry.lfs.isNone then truthy entry.oid else none

/-- `Hub.tree`, once it is answered. -/
def tree (data : List TreeEntry) : List RemoteFile :=
  (data.filter fun entry => entry.type = "file").map RemoteFile.ofEntry

/-- `Hub.revision_sha`, once it is answered. -/
def revisionSha (source : Source) (sha : Option String) : String :=
  (truthy sha).getD source.revision

/-! ## Which files -/

/-- A piece of a pattern of `fnmatch`. -/
inductive Token where
  | any
  | star
  | char (c : Char)
  | oneOf (chars : List Char)

def inRanges : List Char → Char → Bool
  | lo :: '-' :: hi :: rest, c => (lo ≤ c && c ≤ hi) || inRanges rest c
  | x :: rest, c => x == c || inRanges rest c
  | [], _ => false

def Token.accepts (c : Char) : Token → Bool
  | .any => true
  | .star => false
  | .char x => x == c
  | .oneOf ('!' :: chars) => !inRanges chars c
  | .oneOf chars => inRanges chars c

/-- How many characters are in the brackets: the first one may be a `]`. -/
def bracketed (cs : List Char) : Option Nat :=
  let skipped := match cs with
    | '!' :: ']' :: _ => 2
    | '!' :: _ => 1
    | ']' :: _ => 1
    | _ => 0
  ((cs.drop skipped).idxOf? ']').map (skipped + ·)

/-- The pattern, of which the first characters are already read. -/
def tokensFrom : Nat → List Char → List Token
  | _, [] => []
  | k + 1, _ :: cs => tokensFrom k cs
  | 0, c :: cs =>
    if c = '*' then .star :: tokensFrom 0 cs
    else if c = '?' then .any :: tokensFrom 0 cs
    else match (if c = '[' then bracketed cs else none) with
      | some n => .oneOf (cs.take n) :: tokensFrom (n + 1) cs
      | none => .char c :: tokensFrom 0 cs

def matchTokens : List Token → List Char → Bool
  | [], cs => cs.isEmpty
  | .star :: tokens, cs => cs.tails.any (matchTokens tokens)
  | _ :: _, [] => false
  | token :: tokens, c :: cs => token.accepts c && matchTokens tokens cs

def fnmatch (name pattern : String) : Bool :=
  matchTokens (tokensFrom 0 pattern.toList) name.toList

example : fnmatch "onnx/model.bin" "onnx/*" = true ∧ fnmatch "a" "[!b-d]" = true := by
  decide +kernel

def ALWAYS_REDUNDANT : List String := ["onnx/*", "*.onnx", "*.h5", "*.msgpack", "*.ot", "*.ckpt"]

def REDUNDANT_WHEN_SAFETENSORS : List String := ["*.bin"]

/-- `select`: which files to fetch, and the ones that are skipped. -/
def select (files : List RemoteFile) (include_ exclude : List String) :
    List RemoteFile × List String :=
  let hasSafetensors := files.any fun f => ".safetensors".toList.isSuffixOf f.path.toList
  let patterns := exclude ++ ALWAYS_REDUNDANT ++
    if hasSafetensors then REDUNDANT_WHEN_SAFETENSORS else []
  let skip (f : RemoteFile) : Bool :=
    (!include_.isEmpty && !include_.any (fnmatch f.path)) || patterns.any (fnmatch f.path)
  (files.filter fun f => !skip f, (files.filter skip).map (·.path))

/-- Files that are skipped wherever they are listed. -/
def alwaysSkipped (name : String) : Bool := ALWAYS_REDUNDANT.any (fnmatch name)

theorem select_sublist (files : List RemoteFile) (include_ exclude : List String) :
    (select files include_ exclude).1.Sublist files := List.filter_sublist

/-! ## Requests -/

structure Hub where
  endpoint : String := "https://huggingface.co"
  retries : Nat := 4

/-- `urllib.parse.quote` -/
def quote (s : String) : String :=
  String.ofList (s.toUTF8.data.toList.flatMap fun b =>
    let c := Char.ofNat b.toNat
    if b.toNat < 0x80 ∧ (c.isAlphanum ∨ c ∈ ['_', '.', '-', '~', '/']) then [c]
    else '%' :: ((Nat.toDigits 16 b.toNat).map Char.toUpper).leftpad 2 '0')

def fileUrl (hub : Hub) (source : Source) (remote : RemoteFile) : String :=
  hub.endpoint ++ "/" ++ source.repo ++ "/resolve/" ++ quote source.revision ++ "/" ++
    quote remote.path

/-- How the body of an answer ends: closed, dropped with an `OSError`, or broken by an exception
    of another kind. -/
inductive Ending where
  | closed
  | dropped (reason : String)
  | broken (what : String)

/-- What a request for a file comes to. -/
inductive Answer where
  | httpError (code : Nat)
  | notAllowed (message : ThreePartMessage)
  | lost (reason : String)
  | body (status : Nat) (bytes : Bytes) (ending : Ending)

def httpError (url : String) (code : Nat) : ThreePartMessage :=
  if code = 401 ∨ code = 403 then
    ⟨"The hub refused " ++ url ++ " (" ++ toString code ++ ").",
      "The repository is gated or private and no valid token was given.",
      "Accept the licence on the hub with your account, then export HF_TOKEN and " ++
        "run again. The token is read from the environment only."⟩
  else if code = 404 then
    ⟨"The hub has nothing at " ++ url ++ ".",
      "The repository id or the revision is misspelt, or the model was removed.",
      "Check the id on the hub and fix config/model-sources.txt."⟩
  else
    ⟨"The hub answered " ++ toString code ++ " for " ++ url ++ ".", "A hub or proxy problem.",
      "Try again in a minute; if it repeats, check the proxy log."⟩

def notHttp (url : String) : ThreePartMessage where
  whatHappened := "The endpoint " ++ url ++ " is not an http(s) URL."
  likelyCause := "HF_ENDPOINT must name a web server, not a file or another scheme."
  whatToDo := "Set HF_ENDPOINT to https://<mirror> or unset it."

def isHttp (url : String) : Bool :=
  "https://".toList.isPrefixOf url.toList || "http://".toList.isPrefixOf url.toList

end Fetch

end Slas
