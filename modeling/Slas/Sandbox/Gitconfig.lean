/-
  Slas.Sandbox.Gitconfig

  The configuration of git in a sandbox (`render_gitconfig` of `slas_sandbox_manager.manager`): the
  user's identity, written as it is into a file of fixed keys.

  `saysWhatWasMeant_iff`: for which users and display names git reads what was meant.
-/

import Slas.Lib.GitConfig
import Slas.Sandbox.Spec

namespace Slas

namespace Sandbox

open GitConfig

/-- The text in front of the name. -/
def BEFORE_NAME : String :=
  "# Written by SW Local Agent Service for this user; edits are overwritten.\n" ++
    "[user]\n" ++
    "\tname = "

/-- The text behind the address. -/
def AFTER_EMAIL : String :=
  "[init]\n" ++
    "\tdefaultBranch = main\n" ++
    "[credential]\n" ++
    "\thelper =\n" ++
    "[core]\n" ++
    "\thooksPath = /var/empty\n" ++
    "[safe]\n" ++
    "\tdirectory = " ++ WORKSPACE ++ "\n" ++
    "[advice]\n" ++
    "\tdetachedHead = false\n"

def renderGitconfig (displayName email : String) : String :=
  BEFORE_NAME ++ displayName ++ "\n" ++ "\temail = " ++ email ++ "\n" ++ AFTER_EMAIL

/-- The address of a user. -/
def emailOf (user : String) : String := user ++ "@slas.local"

/-- What `prepare_project` writes. -/
def gitconfig (user displayName : String) : String := renderGitconfig displayName (emailOf user)

/-- The keys that are the same for every user. -/
def FIXED_KEYS : List Entry :=
  [("init.defaultbranch", "main"), ("credential.helper", ""), ("core.hookspath", "/var/empty"),
    ("safe.directory", WORKSPACE), ("advice.detachedhead", "false")].map fun entry =>
      (entry.1.toList, some entry.2.toList)

/-- What the text is to say, and nothing else. -/
def meant (user displayName : String) : List Entry :=
  ("user.name".toList, some displayName.toList) ::
    ("user.email".toList, some (emailOf user).toList) :: FIXED_KEYS

def SaysWhatWasMeant (user displayName : String) : Prop :=
  parse (gitconfig user displayName).toList = some (meant user displayName)

/-- Nothing in a user or a display name that means something in the file, and no blanks where the
    reader drops them. -/
structure Harmless (user displayName : String) : Prop where
  name : Plain displayName.toList
  ordinary : ∀ c ∈ user.toList, isSpecial c = false
  head : ∀ c ∈ user.toList.head?, isWhite c = false

/-! ## The parts of the text -/

/-- Where the name stands. -/
def atName : Reader := ⟨some "user".toList, .value "user.name".toList false [] []⟩

def atEmail : Reader := ⟨some "user".toList, .value "user.email".toList false [] []⟩

theorem toList_gitconfig (user displayName : String) :
    (gitconfig user displayName).toList = BEFORE_NAME.toList ++ (displayName.toList ++ '\n' ::
      ("\temail = ".toList ++ ((emailOf user).toList ++ '\n' :: AFTER_EMAIL.toList))) := by
  simp [gitconfig, renderGitconfig]

theorem advance_name : Reader.advance {} BEFORE_NAME.toList = some atName := by decide +kernel

theorem advance_email :
    Reader.advance ⟨some "user".toList, .line⟩ "\temail = ".toList = some atEmail := by
  decide +kernel

theorem read_afterEmail :
    Reader.read ⟨some "user".toList, .line⟩ AFTER_EMAIL.toList = some FIXED_KEYS := by
  decide +kernel

theorem parse_gitconfig (user displayName : String) :
    parse (gitconfig user displayName).toList = atName.read (displayName.toList ++ '\n' ::
      ("\temail = ".toList ++ ((emailOf user).toList ++ '\n' :: AFTER_EMAIL.toList))) := by
  rw [parse, toList_gitconfig, read_advance advance_name]

/-- A letter that begins the line of the address, and that no escape uses. -/
theorem inert_e : Inert 'e' := ⟨rfl, rfl, rfl⟩

/-! ## When it is read as it was meant -/

theorem emailOf_toList (user : String) :
    (emailOf user).toList = user.toList ++ "@slas.local".toList := String.toList_append

theorem plain_emailOf (user : String) : Plain (emailOf user).toList ↔
    (∀ c ∈ user.toList, isSpecial c = false) ∧ ∀ c ∈ user.toList.head?, isWhite c = false := by
  have hall : ("@slas.local".toList.all fun c => isSpecial c == false) = true := by rfl
  have hhost : ∀ c ∈ "@slas.local".toList, isSpecial c = false :=
    fun c hc => beq_iff_eq.mp (List.all_eq_true.mp hall c hc)
  have hne : "@slas.local".toList ≠ [] := by decide
  rw [emailOf_toList]
  constructor
  · intro h
    refine ⟨fun c hc => h.ordinary c (List.mem_append_left _ hc), fun c hc => ?_⟩
    refine h.trimmed.1 c ?_
    rw [Option.mem_def] at hc ⊢
    rw [List.head?_append, hc, Option.some_or]
  · rintro ⟨hordinary, hhead⟩
    refine ⟨List.forall_mem_append.mpr ⟨hordinary, hhost⟩, fun c hc => ?_, fun c hc => ?_⟩
    · rw [List.head?_append] at hc
      cases huser : user.toList.head? with
      | none =>
        rw [huser] at hc
        obtain rfl : '@' = c := Option.some.inj hc
        rfl
      | some d =>
        rw [huser] at hc
        obtain rfl : d = c := Option.some.inj hc
        exact hhead d huser
    · rw [List.getLast?_append_of_ne_nil _ hne] at hc
      obtain rfl : 'l' = c := Option.some.inj hc
      rfl

theorem plain_of_meant {user displayName : String} (h : SaysWhatWasMeant user displayName) :
    Plain displayName.toList := by
  rw [SaysWhatWasMeant, parse_gitconfig] at h
  exact plain_of_read inert_e (Or.inr ⟨_, rfl⟩) h

/-- **Git reads what was meant** exactly if there is nothing in the user or the display name that
    means something in the file. -/
theorem saysWhatWasMeant_iff (user displayName : String) :
    SaysWhatWasMeant user displayName ↔ Harmless user displayName := by
  have hline : ∀ cs, Reader.read ⟨some "user".toList, .line⟩ ("\temail = ".toList ++ cs) =
      atEmail.read cs := fun cs => read_advance advance_email
  constructor
  · intro h
    have hname := plain_of_meant h
    rw [SaysWhatWasMeant, parse_gitconfig, atName, read_plain hname, hline] at h
    obtain ⟨entries, hentries, heq⟩ := Option.map_eq_some_iff.mp h
    obtain rfl := (List.cons.inj heq).2
    have hlast : (emailOf user).toList.getLast? ≠ some '\\' := by
      rw [emailOf_toList, List.getLast?_append_of_ne_nil _ (by decide)]
      decide
    obtain ⟨huser, hhead⟩ := (plain_emailOf user).mp (plain_of_read inert_e (Or.inl hlast) hentries)
    exact ⟨hname, huser, hhead⟩
  · rintro ⟨hname, huser, hhead⟩
    rw [SaysWhatWasMeant, parse_gitconfig, atName, read_plain hname, hline, atEmail,
      read_plain ((plain_emailOf user).mpr ⟨huser, hhead⟩), read_afterEmail]
    rfl

/-- A display name with a comment in it is cut short, and one with a line break sets a key. -/
theorem hashed_not_meant : ¬ SaysWhatWasMeant "eva" "Eva #2" ∧
    ¬ SaysWhatWasMeant "eva" "Eva\n[core]\n\thooksPath = /workspace/h" := by
  constructor
  · intro h
    exact absurd ((plain_of_meant h).ordinary '#' (by decide)) (by decide)
  · intro h
    exact absurd ((plain_of_meant h).ordinary '\n' (by decide)) (by decide)

end Sandbox

end Slas
