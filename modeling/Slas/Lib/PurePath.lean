/-
  Slas.Lib.PurePath

  `pathlib.PurePosixPath`: a root and the names below it.  Its text reads back as the same path:
  `ofText_str`.  A path at or below another one is what joins to the other: `inside_join`.
-/

import Mathlib.Data.List.Infix
import Slas.Lib.Text

namespace Text

/-- What a name of a path is: neither empty nor a dot, and without a slash. -/
def IsName (name : String) : Prop := '/' ∉ name.toList ∧ name ≠ "" ∧ name ≠ "."

theorem isName_of_mem_names {path name : String} (h : name ∈ names path) : IsName name := by
  obtain ⟨hmem, hkept⟩ := List.mem_filter.mp h
  obtain ⟨cs, hcs, rfl⟩ := List.mem_map.mp hmem
  have hproper : String.ofList cs ≠ "" ∧ String.ofList cs ≠ "." := by simpa using hkept
  refine ⟨fun hslash => ?_, hproper⟩
  rw [String.toList_ofList] at hslash
  exact (mem_splitOn hcs _ hslash).2 rfl

theorem names_of_isName {name : String} (h : IsName name) : names name = [name] := by
  rw [names, List.splitOn_eq_singleton h.1]
  simp [h.2.1, h.2.2]

theorem names_slash (cs : List Char) :
    names (String.ofList ('/' :: cs)) = names (String.ofList cs) := by
  have hsplit := List.splitOn_append_cons_self (a := '/') [] cs
  rw [List.nil_append, List.splitOn_nil] at hsplit
  simp [names, hsplit]

/-- The text of some names, joined by slashes. -/
def joined (ns : List String) : List Char := ['/'].intercalate (ns.map String.toList)

theorem names_joined {ns : List String} (h : ∀ name ∈ ns, IsName name) :
    names (String.ofList (joined ns)) = ns := by
  by_cases hns : ns = []
  · subst hns
    decide
  · have hsplit : (joined ns).splitOn '/' = ns.map String.toList :=
      List.splitOn_intercalate '/' (by simpa using fun name hname => (h name hname).1)
        (by simpa using hns)
    rw [names, String.toList_ofList, hsplit, List.map_map]
    simp only [Function.comp_def, String.ofList_toList, List.map_id']
    exact List.filter_eq_self.mpr fun name hname => by
      simpa using ⟨(h name hname).2.1, (h name hname).2.2⟩

/-- Joined names do not begin with a slash. -/
theorem head_joined {ns : List String} (h : ∀ name ∈ ns, IsName name) :
    ∀ c ∈ (joined ns).head?, c ≠ '/' := by
  cases ns with
  | nil => exact fun _ hc => nomatch hc
  | cons name ns =>
    obtain ⟨hslash, hne, -⟩ := h name List.mem_cons_self
    obtain ⟨c, cs, hcs⟩ := List.exists_cons_of_ne_nil (String.toList_eq_nil_iff.not.mpr hne)
    intro d hd
    have hhead : (joined (name :: ns)).head? = some c := by
      cases ns <;> simp [joined, List.intercalate, hcs]
    obtain rfl : c = d := Option.some.inj (hhead.symm.trans hd)
    rintro rfl
    exact hslash (by simp [hcs])

theorem root_of_head {cs : List Char} (h : ∀ c ∈ cs.head?, c ≠ '/') :
    root (String.ofList cs) = [] ∧ root (String.ofList ('/' :: cs)) = ["/"] ∧
      root (String.ofList ('/' :: '/' :: cs)) = ["//"] := by
  cases cs with
  | nil => decide
  | cons c cs =>
    have hc : c ≠ '/' := h c rfl
    simp [root, hc]

theorem root_of_isName {name : String} (h : IsName name) : root name = [] := by
  rw [← String.ofList_toList (s := name)]
  refine (root_of_head fun c hc => ?_).1
  rintro rfl
  exact h.1 (List.mem_of_mem_head? hc)

theorem root_mem (path : String) : root path ∈ [[], ["/"], ["//"]] := by
  unfold root
  split <;> decide

end Text

structure PurePath where
  root : List String
  names : List String
  rooted : root ∈ [[], ["/"], ["//"]]
  named : ∀ name ∈ names, Text.IsName name

namespace PurePath

variable {p q : PurePath} {name text : String}

@[ext] theorem ext (hroot : p.root = q.root) (hnames : p.names = q.names) : p = q := by
  cases p
  cases q
  cases hroot
  cases hnames
  rfl

def ofText (text : String) : PurePath :=
  ⟨Text.root text, Text.names text, Text.root_mem text, fun _ h => Text.isName_of_mem_names h⟩

theorem named_append (p : PurePath) (text : String) :
    ∀ name ∈ p.names ++ Text.names text, Text.IsName name := by
  intro name hname
  rcases List.mem_append.mp hname with h | h
  · exact p.named name h
  · exact Text.isName_of_mem_names h

/-- `path / text`: a text with a root takes the place of the path. -/
def join (p : PurePath) (text : String) : PurePath :=
  if Text.root text = [] then
    ⟨p.root, p.names ++ Text.names text, p.rooted, named_append p text⟩
  else ofText text

/-- `str(path)` -/
def str (p : PurePath) : String :=
  if p.root = [] ∧ p.names = [] then "."
  else String.ofList (p.root.flatMap String.toList ++ Text.joined p.names)

example : ((ofText "/data").join "Coding/./a").str = "/data/Coding/a" := by decide +kernel

/-- A name joins as one more name. -/
theorem join_name (h : Text.IsName name) :
    (p.join name).root = p.root ∧ (p.join name).names = p.names ++ [name] := by
  rw [join, if_pos (Text.root_of_isName h)]
  exact ⟨rfl, congrArg (p.names ++ ·) (Text.names_of_isName h)⟩

/-- **Reading back**: the text of a path stands for the path. -/
theorem ofText_str (p : PurePath) : ofText p.str = p := by
  obtain ⟨hnone, hone, htwo⟩ := Text.root_of_head (Text.head_joined p.named)
  have hnames := Text.names_joined p.named
  by_cases hdot : p.root = [] ∧ p.names = []
  · rw [str, if_pos hdot]
    exact ext (hdot.1 ▸ by decide) (hdot.2 ▸ by decide)
  · rw [str, if_neg hdot]
    have hroot := p.rooted
    simp only [List.mem_cons, List.not_mem_nil, or_false] at hroot
    rcases hroot with hr | hr | hr
    · have hcs : p.root.flatMap String.toList ++ Text.joined p.names = Text.joined p.names := by
        rw [hr]
        rfl
      rw [hcs]
      exact ext (hnone.trans hr.symm) hnames
    · have hcs : p.root.flatMap String.toList ++ Text.joined p.names =
          '/' :: Text.joined p.names := by
        rw [hr]
        rfl
      rw [hcs]
      exact ext (hone.trans hr.symm) ((Text.names_slash _).trans hnames)
    · have hcs : p.root.flatMap String.toList ++ Text.joined p.names =
          '/' :: '/' :: Text.joined p.names := by
        rw [hr]
        rfl
      rw [hcs]
      exact ext (htwo.trans hr.symm)
        (((Text.names_slash _).trans (Text.names_slash _)).trans hnames)

/-- At the other path, or below it. -/
def Inside (p q : PurePath) : Prop := p.root = q.root ∧ q.names <+: p.names

theorem Inside.trans {r : PurePath} (h : p.Inside q) (h' : q.Inside r) : p.Inside r :=
  ⟨h.1.trans h'.1, h'.2.trans h.2⟩

theorem inside_join (h : Text.IsName name) : (p.join name).Inside p := by
  obtain ⟨hroot, hnames⟩ := join_name (p := p) h
  exact ⟨hroot, hnames ▸ List.prefix_append _ _⟩

/-- Below two names that differ, no path is inside another one. -/
theorem not_inside_of_join_ne {a b : PurePath} {name' : String} (hname : Text.IsName name)
    (hname' : Text.IsName name') (hne : name ≠ name') (ha : a.Inside (p.join name))
    (hb : b.Inside (p.join name')) : ¬ a.Inside b := by
  intro hab
  have h := ha.2
  have h' := (hab.trans hb).2
  rw [(join_name hname).2] at h
  rw [(join_name hname').2] at h'
  have hlen : (p.names ++ [name]).length = (p.names ++ [name']).length := by simp
  have hsame := (List.prefix_of_prefix_length_le h h' hlen.le).eq_of_length hlen
  exact hne (List.singleton_inj.mp (List.append_cancel_left hsame))

end PurePath
