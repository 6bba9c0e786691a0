/-
  Slas.Git.Gate

  The validation gate every push passes (`slas_git.gate`), over what git answers in
  the workspace (`slas_git.workspace`).

  Deterministic code decides every check except the last; the cross-check of a change
  that an agent wrote is asked of the Consensus Router.
-/

import Slas.Kernel.World
import Slas.Lib.Text
import Slas.Llm.Consensus
import Slas.Skills.Values

namespace Slas

namespace Git

/-! ## The workspace -/

structure CommandResult where
  exitCode : Int
  stdout : String := ""
  stderr : String := ""

/-- What ends an operation. -/
inductive GitFailure where
  /-- `GitError` -/
  | git (message : ThreePartMessage)
  /-- any other exception, with its message -/
  | raised (message : String)

def stripText (text : String) : String := String.ofList (Text.strip text.toList)

/-- A workspace: where it is, and what git answers there to its arguments after the
    hardening flags. -/
structure GitWorkspace where
  cwd : String
  run : List String → CommandResult

namespace GitWorkspace

variable (W : GitWorkspace)

/-- The last line of what git complained of. -/
def complaint (result : CommandResult) : String :=
  match (Lines.splitlines (Text.strip result.stderr.toList)).getLast? with
  | some line => String.ofList line
  | none => "git exited with code " ++ toString result.exitCode ++ "."

def didNotFinish (command : String) (result : CommandResult) : ThreePartMessage where
  whatHappened := "git " ++ command ++ " did not finish in " ++ W.cwd ++ "."
  likelyCause := complaint result
  whatToDo := "Open the Terminal tab to look at the repository, then try again."

/-- `git` with `check=True`: the output. -/
def git (args : List String) : Except GitFailure String :=
  let result := W.run args
  if result.exitCode ≠ 0 then .error (.git (W.didNotFinish (args.headD "") result))
  else .ok result.stdout

/-- `diff`, as a summary. -/
def diffStat (base : String) : Except GitFailure String :=
  W.git ["diff", "--no-color", "--no-ext-diff", "--stat", base, "HEAD"]

end GitWorkspace

/-! ## Policy and report -/

def HOOK_DIRS : List String := ["hooks", ".githooks", ".husky", ".git-hooks"]

structure GatePolicy where
  maxFiles : Nat := 2000
  maxBlobBytes : Nat := 25 * 1024 * 1024
  maxTotalBytes : Nat := 200 * 1024 * 1024
  lfsEnabled : Bool := false
  maxFiles_pos : 1 ≤ maxFiles := by decide
  maxBlobBytes_pos : 1 ≤ maxBlobBytes := by decide
  maxTotalBytes_pos : 1 ≤ maxTotalBytes := by decide

structure GateCheck where
  name : String
  ok : Bool
  sentence : String

structure GateReport where
  checks : List GateCheck
  verdict : Option Llm.ConsensusVerdict := none

namespace GateReport

variable (report : GateReport)

def passed : Bool := report.checks.all (·.ok)

def problems : List String := (report.checks.filter fun check => !check.ok).map (·.sentence)

def sentence : String :=
  if report.passed then "All " ++ toString report.checks.length ++ " checks passed."
  else toString report.problems.length ++ " of " ++ toString report.checks.length ++
    " checks failed: " ++ " ".intercalate report.problems

end GateReport

structure SecretFinding where
  path : String
  rule : String
  line : Option Int := none

structure SecretScanner where
  name : String
  scan : String → List SecretFinding

/-- The voters: what they say of a decision and its evidence. -/
abbrev CrossChecker := String → List String → Llm.ConsensusVerdict

/-- `check` -/
def check (name : String) (ok : Bool) (good bad : String) : GateCheck :=
  ⟨name, ok, if ok then good else bad⟩

/-- The first three, between commas. -/
def firstThree (texts : List String) : String := ", ".intercalate (texts.take 3)

/-! ## What changed -/

/-- New mode, new id and path of a file. -/
structure Entry where
  mode : String
  sha : String
  path : String
  deriving DecidableEq

/-- One line of `git diff-tree`. -/
def entryOf (line : List Char) : Option Entry :=
  let (info, path) := Text.partition '\t' line
  match Text.words info with
  | _ :: mode :: _ :: sha :: _ =>
    some ⟨String.ofList mode, String.ofList sha, String.ofList path⟩
  | _ => none

def entriesOf (tree : String) : List Entry := (Lines.splitlines tree.toList).filterMap entryOf

/-! ## The checks -/

/-- The path names a parent, an absolute path or the metadata of the repository. -/
def leaves (path : String) : Bool :=
  path.toList.head? == some '/' || (Text.parts path).contains ".." ||
    path.toList.takeWhile (· ≠ '/') == ".git".toList

def pathScope (paths : List String) : GateCheck :=
  let bad := paths.filter leaves
  check "path_scope" bad.isEmpty "Every change stays inside the project."
    ("Changes leave the project path: " ++ firstThree bad ++ ".")

/-- The file lies in a directory of hooks. -/
def isHook (path : String) : Bool := (Text.parts path).dropLast.any HOOK_DIRS.contains

def hooksCheck (paths : List String) : GateCheck :=
  let hooks := paths.filter isHook
  check "hooks" hooks.isEmpty "No hook files were added."
    ("Hook files are not accepted: " ++ firstThree hooks ++ ".")

def submodulesCheck (entries : List Entry) : GateCheck :=
  check "submodules" (!entries.any fun entry => entry.path == ".gitmodules" || entry.mode == "160000")
    "No submodule was added."
    "Submodules are not accepted: they pull code from somewhere the gate cannot see."

/-- The loop of `_escapes` from a level on. -/
def escapesFrom (depth : Int) : Int → List String → Bool
  | _, [] => false
  | level, part :: parts =>
    if part = ".." then
      if depth < level + 1 then true else escapesFrom depth (level + 1) parts
    else if part ≠ "." then escapesFrom depth (level - 1) parts
    else escapesFrom depth level parts

/-- `_escapes` -/
def escapes (linkTarget linkPath : String) : Bool :=
  if linkTarget.toList.head? = some '/' then true
  else escapesFrom ((Text.parts linkPath).length - 1) 0 (Text.parts linkTarget)

variable (P : Python) (W : GitWorkspace)

/-- The links of the change that leave the tree, with their targets. -/
def escaping : List Entry → Except GitFailure (List String)
  | [] => .ok []
  | entry :: entries => do
    if entry.mode = "120000" then
      let target := stripText (← W.git ["cat-file", "-p", entry.sha])
      let rest ← escaping entries
      return if escapes target entry.path then (entry.path ++ " → " ++ target) :: rest else rest
    else escaping entries

def symlinksCheck (links : List String) : GateCheck :=
  check "symlinks" links.isEmpty "No symlink points outside the tree."
    ("Symlinks escape the tree: " ++ firstThree links ++ ".")

/-- The size of a blob. -/
def blobSize (sha : String) : Except GitFailure Int := do
  let printed := stripText (← W.git ["cat-file", "-s", sha])
  (P.int (.str (if printed = "" then "0" else printed))).mapError .raised

/-- The bytes of the files of the change, and the files that are too large. -/
def sizes (policy : GatePolicy) : List Entry → Except GitFailure (Int × List String)
  | [] => .ok (0, [])
  | entry :: entries => do
    if entry.mode = "100644" ∨ entry.mode = "100755" then
      let size ← blobSize P W entry.sha
      let (total, oversized) ← sizes policy entries
      return (size + total, if (policy.maxBlobBytes : Int) < size then
        (entry.path ++ " (" ++ Text.thousands size ++ " bytes)") :: oversized else oversized)
    else sizes policy entries

def sizeCheck (policy : GatePolicy) (files : Nat) (total : Int) (oversized : List String) :
    GateCheck :=
  check "size"
    (files ≤ policy.maxFiles && total ≤ (policy.maxTotalBytes : Int) && oversized.isEmpty)
    (toString files ++ " " ++ (if files = 1 then "file" else "files") ++ ", " ++
      Text.thousands total ++ " bytes changed.")
    ("Too much for one push: " ++ toString files ++ " files, " ++ Text.thousands total ++
      " bytes" ++ (if oversized.isEmpty then "" else "; oversized: " ++ firstThree oversized) ++
      ". The limits are " ++ toString policy.maxFiles ++ " files and " ++
      Text.thousands policy.maxTotalBytes ++ " bytes.")

/-- What follows the prefix. -/
def after (start : String) (cs : List Char) : Option (List Char) :=
  if start.toList.isPrefixOf cs then some (cs.drop start.toList.length) else none

/-- `filter\s*=\s*lfs` matches here. -/
def lfsHere (cs : List Char) : Bool :=
  ((((after "filter" cs).bind fun rest => after "=" (rest.dropWhile isSpace)).bind fun rest =>
    after "lfs" (rest.dropWhile isSpace))).isSome

/-- `_LFS.search` -/
def lfsSearch (text : String) : Bool := text.toList.tails.any lfsHere

/-- The attribute files of the change that turn Git LFS on. -/
def lfsHits : List Entry → Except GitFailure (List String)
  | [] => .ok []
  | entry :: entries => do
    if Text.name entry.path = ".gitattributes" ∧ "100".toList.isPrefixOf entry.mode.toList then
      let text ← W.git ["cat-file", "-p", entry.sha]
      let rest ← lfsHits entries
      return if lfsSearch text then entry.path :: rest else rest
    else lfsHits entries

def lfsCheck (policy : GatePolicy) (hits : List String) : GateCheck :=
  check "lfs" hits.isEmpty
    (if policy.lfsEnabled then "Git LFS is enabled for this remote." else "Git LFS is not used.")
    ("Git LFS is off for this remote, but " ++ ", ".intercalate hits ++ " turns it on.")

/-- Where a finding is, in words. -/
def SecretFinding.place (finding : SecretFinding) : String :=
  finding.path ++ ":" ++ (match finding.line with | some n => toString n | none => "None") ++ " (" ++
    finding.rule ++ ")"

def secretsCheck (scanner : SecretScanner) (findings : List SecretFinding) : GateCheck :=
  check "secrets" findings.isEmpty ("No secret found by " ++ scanner.name ++ ".")
    (scanner.name ++ " found " ++ toString findings.length ++ " secret-like " ++
      (if findings.length = 1 then "value" else "values") ++ ": " ++
      firstThree (findings.map (·.place)) ++ ". Remove them and commit again.")

def branchPolicy (protectedBranch mayPushProtected : Bool) : GateCheck :=
  check "branch_policy" (!protectedBranch || mayPushProtected)
    (if protectedBranch then "Pushing to a protected branch, which you may do."
      else "Pushing to a branch.")
    ("Direct pushes to a protected branch need git:push_protected, which is off by default; " ++
      "push to a branch and open a merge request instead.")

/-- The cross-check of a change that an agent wrote, and what the voters said. -/
def crossCheck (crossChecker : Option CrossChecker) (base diffText : String) :
    Except GitFailure (GateCheck × Option Llm.ConsensusVerdict) :=
  match crossChecker with
  | none => .ok (check "cross_check" false ""
      ("An agent wrote this change and no voters are configured to check it; review it " ++
        "yourself before pushing."), none)
  | some voters => do
    let stat ← W.diffStat base
    let verdict := voters "code_change" ["Diff stat:\n" ++ stat,
      "Diff:\n" ++ String.ofList (diffText.toList.take 40000)]
    return (check "cross_check" verdict.agreed verdict.sentence verdict.sentence, some verdict)

/-! ## The gate -/

/-- What the gate is told about a push. -/
structure GateRequest where
  base : String
  head : String
  agentAuthored : Bool := false
  protectedBranch : Bool := false
  mayPushProtected : Bool := false

/-- `validate_push` -/
def validatePush (policy : GatePolicy) (scanner : SecretScanner)
    (crossChecker : Option CrossChecker) (r : GateRequest) : Except GitFailure GateReport := do
  let tree ← W.git ["diff-tree", "-r", "--no-commit-id", "--diff-filter=ACMRT", r.base, r.head]
  let entries := entriesOf tree
  let paths := entries.map (·.path)
  let links ← escaping W entries
  let (total, oversized) ← sizes P W policy entries
  let hits ← if policy.lfsEnabled then pure [] else lfsHits W entries
  let diffText ← W.git ["diff", "--no-color", "--no-ext-diff", r.base, r.head]
  let checks := [pathScope paths, hooksCheck paths, submodulesCheck entries, symlinksCheck links,
    sizeCheck policy paths.length total oversized, lfsCheck policy hits,
    secretsCheck scanner (scanner.scan diffText), branchPolicy r.protectedBranch r.mayPushProtected]
  if r.agentAuthored then
    let (crossed, verdict) ← crossCheck W crossChecker r.base diffText
    return { checks := checks ++ [crossed], verdict }
  else return { checks }

end Git

end Slas
