/-
  Slas.Sandbox.Spec

  The container spec of a sandbox (`slas_sandbox_manager.spec`) and the hardening gate: what a spec
  must be for a sandbox to be created of it.
-/

import Mathlib.Data.List.Infix
import Slas.Lib.Dict
import Slas.Lib.PurePath

namespace Slas

namespace Sandbox

def WORKSPACE : String := "/workspace"
def SCRATCH : String := "/scratch"
def GITCONFIG_TARGET : String := "/etc/slas/gitconfig"

inductive Runtime where
  | runsc
  | kataFc
  | runc
  deriving DecidableEq

inductive Tier where
  | gvisor
  | kata
  deriving DecidableEq

inductive Profile where
  | quickstart
  | prod
  deriving DecidableEq

inductive Mode where
  | ro
  | rw
  deriving DecidableEq

structure Mount where
  source : String
  target : String
  mode : Mode
  deriving DecidableEq

/-- `[a-z0-9]` -/
def isSlugHead (c : Char) : Bool := c.isLower || c.isDigit

/-- `^[a-z0-9][a-z0-9-]*$` -/
def isSlug : List Char → Bool
  | [] => false
  | c :: cs => isSlugHead c && cs.all fun c => isSlugHead c || c = '-'

def NAME_PREFIX : String := "slas-sbx-"

/-- `^slas-sbx-[a-z0-9][a-z0-9-]*$` -/
def isSandboxName (name : String) : Bool :=
  NAME_PREFIX.toList.isPrefixOf name.toList && isSlug (name.toList.drop NAME_PREFIX.length)

structure SandboxSpec where
  name : String
  image : String
  runtime : Runtime
  user : String
  slug : String
  mounts : List Mount
  env : List (String × String)
  ttlS : Nat
  deriving DecidableEq

/-- The fields that their own checks refuse. -/
def SandboxSpec.invalidFields (spec : SandboxSpec) : List String :=
  [("name", isSandboxName spec.name), ("image", spec.image ≠ ""), ("user", spec.user ≠ ""),
    ("slug", isSlug spec.slug.toList), ("ttl_s", 60 ≤ spec.ttlS ∧ spec.ttlS ≤ 86400)]
    |>.filterMap fun check => if check.2 then none else some check.1

/-! ## The hardening gate -/

/-- `part in text` -/
def isIn (part text : List Char) : Bool := text.tails.any (part.isPrefixOf ·)

/-- A word of a text, with an underscore, a dash or nothing between its two halves. -/
def hasPair (first second : String) (text : List Char) : Bool :=
  ["", "_", "-"].any fun mid => isIn (first ++ mid ++ second).toList text

/-- `pat\b`: the letters, at the end or before what is no part of a word. -/
def hasPat (text : List Char) : Bool :=
  text.tails.any fun cs => "pat".toList.isPrefixOf cs &&
    (cs.drop 3).head?.all fun c => !(c.isAlphanum || c = '_')

/-- `_SECRET_ENV` finds something in the key of a variable. -/
def isSecretEnv (key : String) : Bool :=
  let text := key.toList.map Char.toLower
  (["token", "passw", "secret", "credential", "ssh_auth_sock", "git_askpass", "netrc"].any
      fun word => isIn word.toList text) ||
    hasPair "api" "key" text || hasPair "private" "key" text || hasPat text

def FORBIDDEN_MOUNT_PARTS : List String :=
  ["docker.sock", "podman.sock", "/run/podman", "/var/run/docker", "/tmp/.X11-unix", "/dev/input",
    "/dev/dri", "/.ssh", ".git-credentials", ".netrc", "id_rsa", "id_ed25519", "/etc/shadow"]

inductive HardeningError where
  | notPinned (image : String)
  | secretEnv (key : String)
  | otherMounts
  | forbiddenMount (source : String)
  | writableIdentity
  deriving DecidableEq

/-- No `:latest`, and a tag or a digest. -/
def isPinned (image : String) : Bool :=
  !":latest".toList.isSuffixOf image.toList &&
    (isIn "@sha256:".toList image.toList || ':' ∈ image.toList)

/-- A mount's own refusal. -/
def mountError (lower : String → String) (mount : Mount) : Option HardeningError :=
  if FORBIDDEN_MOUNT_PARTS.any fun part =>
      isIn (lower part).toList (lower mount.source).toList then
    some (.forbiddenMount mount.source)
  else if mount.target = GITCONFIG_TARGET ∧ mount.mode ≠ .ro then some .writableIdentity
  else none

/-- `check_hardening`: the first refusal.  `lower` is `str.lower`. -/
def checkHardening (lower : String → String) (spec : SandboxSpec) : Option HardeningError :=
  if isPinned spec.image = false then some (.notPinned spec.image)
  else match (Dict.keys spec.env).find? isSecretEnv with
  | some key => some (.secretEnv key)
  | none =>
    if ¬ (spec.mounts.map (·.target)).Perm [WORKSPACE, SCRATCH, GITCONFIG_TARGET] then
      some .otherMounts
    else spec.mounts.findSome? (mountError lower)

def defaultEnv (language : String) : List (String × String) :=
  [("HOME", SCRATCH), ("GIT_CONFIG_GLOBAL", GITCONFIG_TARGET), ("GIT_TERMINAL_PROMPT", "0"),
    ("SLAS_LANGUAGE", language), ("LANG", "C.UTF-8"), ("TMPDIR", "/tmp")]

end Sandbox

end Slas
