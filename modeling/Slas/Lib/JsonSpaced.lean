/-
  Slas.Lib.JsonSpaced

  JSON as Python's `json` writes it, with a blank behind each comma and each colon, and the reader
  of such a text.  The grammar allows white space before and after each of the six structural
  characters, and nowhere else: `squeeze` takes away that white space, and what is left is read as
  compact JSON.

  `loadsText_dumps`: reading undoes writing.  `loadsText_cut`: no part of an object's text is read.
-/

import Slas.Lib.JsonText

namespace Json

/-! ## Writing -/

mutual

/-- `json.dumps(_, ensure_ascii=False)` -/
def dumps : Json → List Char
  | .null => dump .null
  | .bool b => dump (.bool b)
  | .num d => dumpNum d
  | .str s => dumpStr s
  | .arr xs => '[' :: dumpsItems xs
  | .obj kvs => '{' :: dumpsFields kvs

def dumpsItems : List Json → List Char
  | [] => [']']
  | [x] => dumps x ++ [']']
  | x :: y :: ys => dumps x ++ ',' :: ' ' :: dumpsItems (y :: ys)

def dumpsFields : List (String × Json) → List Char
  | [] => ['}']
  | [kv] => dumpsField kv ++ ['}']
  | kv :: kw :: kws => dumpsField kv ++ ',' :: ' ' :: dumpsFields (kw :: kws)

def dumpsField : String × Json → List Char
  | (k, v) => dumpStr k ++ ':' :: ' ' :: dumps v

end

/-! ## Reading -/

def isWhite (c : Char) : Bool := c == ' ' || c == '\t' || c == '\n' || c == '\r'

def isStructural (c : Char) : Bool :=
  c == '[' || c == ']' || c == '{' || c == '}' || c == ',' || c == ':'

/-- Where a reader is: at the start or behind a structural character, behind something else, in
    a string, or in a string behind a backslash. -/
inductive Mode where
  | behind
  | bare
  | quoted
  | escaped
  deriving DecidableEq

namespace Mode

/-- Behind a character that is not in a string. -/
def enter (c : Char) : Mode :=
  if c = '"' then quoted else if isStructural c then behind else bare

/-- Behind one character more. -/
def step : Mode → Char → Mode
  | quoted, c => if c = '"' then bare else if c = '\\' then escaped else quoted
  | escaped, _ => quoted
  | behind, c => if isWhite c then behind else enter c
  | bare, c => if isWhite c then bare else enter c

end Mode

/-- Whether white space in front of the text is in front of a structural character or the end. -/
def joins (cs : List Char) : Bool :=
  match cs.dropWhile isWhite with
  | [] => true
  | c :: _ => isStructural c

/-- The text without the white space that the grammar allows. -/
def squeeze : Mode → List Char → List Char
  | _, [] => []
  | .behind, c :: cs =>
    if isWhite c then squeeze .behind cs else c :: squeeze (Mode.behind.step c) cs
  | .bare, c :: cs =>
    if isWhite c ∧ joins cs then squeeze .bare cs else c :: squeeze (Mode.bare.step c) cs
  | .quoted, c :: cs => c :: squeeze (Mode.quoted.step c) cs
  | .escaped, c :: cs => c :: squeeze (Mode.escaped.step c) cs

/-- `json.loads` -/
def loadsText (cs : List Char) : Option Json := loads (squeeze .behind cs)

example : squeeze .behind "[1 , 2 3]".toList = "[1,2 3]".toList := by decide

/-! ## Texts without other white space -/

/-- There is no white space behind something that is no structural character. -/
def Tidy : Mode → List Char → Prop
  | _, [] => True
  | m, c :: cs => (m = .bare → isWhite c = false) ∧ Tidy (m.step c) cs

/-- Where a reader is at the end. -/
def Mode.after (m : Mode) (cs : List Char) : Mode := cs.foldl Mode.step m

variable {m n : Mode} {cs ds out out' : List Char} {c : Char}

theorem squeeze_append (h : Tidy m (cs ++ ds)) :
    squeeze m (cs ++ ds) = squeeze m cs ++ squeeze (m.after cs) ds := by
  induction cs generalizing m with
  | nil => cases m <;> rfl
  | cons c cs ih =>
    have hrest := ih h.2
    have hwhite := h.1
    cases m with
    | behind =>
      by_cases hc : isWhite c = true
      · have hstep : Mode.behind.step c = .behind := if_pos hc
        rw [hstep] at hrest
        simpa [squeeze, hc, Mode.after, hstep] using hrest
      · simpa [squeeze, hc, Mode.after] using hrest
    | bare => simpa [squeeze, hwhite rfl, Mode.after] using hrest
    | quoted => simpa [squeeze, Mode.after] using hrest
    | escaped => simpa [squeeze, Mode.after] using hrest

theorem tidy_append (hcs : Tidy m cs) (hds : Tidy (m.after cs) ds) : Tidy m (cs ++ ds) := by
  induction cs generalizing m with
  | nil => exact hds
  | cons c cs ih => exact ⟨hcs.1, ih hcs.2 hds⟩

/-- Only white space goes. -/
theorem mem_squeeze (h : c ∈ cs) (hc : isWhite c = false) : c ∈ squeeze m cs := by
  induction cs generalizing m with
  | nil => cases h
  | cons d cs ih =>
    rcases List.mem_cons.mp h with rfl | h
    · cases m <;> simp [squeeze, hc]
    · cases m <;> rw [squeeze] <;> try split_ifs
      all_goals first
        | exact ih h
        | exact List.mem_cons_of_mem _ (ih h)

/-- A text is read from one place to another, and squeezed to `out`. -/
structure Squeezes (m : Mode) (cs out : List Char) (n : Mode) : Prop where
  tidy : Tidy m cs
  out : squeeze m cs = out
  after : m.after cs = n

namespace Squeezes

theorem nil : Squeezes m [] [] m := ⟨trivial, by cases m <;> rfl, rfl⟩

theorem append {k : Mode} (h : Squeezes m cs out n) (h' : Squeezes n ds out' k) :
    Squeezes m (cs ++ ds) (out ++ out') k := by
  obtain ⟨htidy, rfl, rfl⟩ := h
  obtain ⟨htidy', rfl, rfl⟩ := h'
  exact ⟨tidy_append htidy htidy', squeeze_append (tidy_append htidy htidy'), List.foldl_append⟩

/-- A character that is no white space. -/
theorem char (hc : isWhite c = false) : Squeezes m [c] [c] (m.step c) := by
  refine ⟨⟨fun _ => hc, trivial⟩, ?_, rfl⟩
  cases m <;> simp [squeeze, hc]

theorem cons (hc : isWhite c = false) (h : Squeezes (m.step c) cs out n) :
    Squeezes m (c :: cs) (c :: out) n :=
  (char hc).append h

/-- White space behind a structural character. -/
theorem blank (hc : isWhite c = true) (h : Squeezes .behind cs out n) :
    Squeezes .behind (c :: cs) out n := by
  have hstep : Mode.behind.step c = .behind := if_pos hc
  obtain ⟨htidy, rfl, rfl⟩ := h
  refine ⟨⟨fun h => (by cases h), hstep.symm ▸ htidy⟩, by rw [squeeze, if_pos hc], ?_⟩
  rw [Mode.after, List.foldl_cons, hstep, Mode.after]

/-- In a string, what neither ends it nor begins an escape. -/
theorem quoted (h : ∀ c ∈ cs, c ≠ '"' ∧ c ≠ '\\') : Squeezes .quoted cs cs .quoted := by
  induction cs with
  | nil => exact nil
  | cons c cs ih =>
    obtain ⟨⟨hquote, hslash⟩, hrest⟩ := List.forall_mem_cons.mp h
    have hstep : Mode.quoted.step c = .quoted := by
      rw [Mode.step, if_neg hquote, if_neg hslash]
    have hsqueezes := ih hrest
    rw [← hstep] at hsqueezes
    refine ⟨⟨fun h => (by cases h), hsqueezes.tidy⟩, ?_, ?_⟩
    · rw [squeeze, hsqueezes.out]
    · rw [Mode.after, List.foldl_cons, ← Mode.after, hsqueezes.after, hstep]

end Squeezes

/-! ## What is written is squeezed to the compact text -/

/-- Neither white space nor a quote nor structural. -/
def isPlain (c : Char) : Bool := !(isWhite c || c == '"' || isStructural c)

/-- Outside a string. -/
def Mode.Outside (m : Mode) : Prop := m = .behind ∨ m = .bare

theorem Mode.step_outside (h : m.Outside) (hc : isWhite c = false) : m.step c = enter c := by
  rcases h with rfl | rfl <;> simp [Mode.step, hc]

namespace Squeezes

/-- A structural character. -/
theorem structural (hm : m.Outside) (hc : isStructural c = true)
    (h : Squeezes .behind cs out n) : Squeezes m (c :: cs) (c :: out) n := by
  have hwhite : isWhite c = false := by
    simp only [isStructural, Bool.or_eq_true, beq_iff_eq] at hc
    rcases hc with ((((rfl | rfl) | rfl) | rfl) | rfl) | rfl <;> rfl
  have hquote : c ≠ '"' := by
    rintro rfl
    cases hc
  refine cons hwhite ?_
  rw [Mode.step_outside hm hwhite, Mode.enter, if_neg hquote, if_pos hc]
  exact h

/-- A name or a number. -/
theorem plain (hm : m.Outside) (h : ∀ c ∈ cs, isPlain c = true) :
    ∃ n, n.Outside ∧ Squeezes m cs cs n := by
  induction cs generalizing m with
  | nil => exact ⟨m, hm, nil⟩
  | cons c cs ih =>
    obtain ⟨hc, hrest⟩ := List.forall_mem_cons.mp h
    simp only [isPlain, Bool.not_eq_true', Bool.or_eq_false_iff, beq_eq_false_iff_ne] at hc
    have hstep : m.step c = .bare := by
      rw [Mode.step_outside hm hc.1.1, Mode.enter, if_neg hc.1.2, if_neg (by simp [hc.2])]
    obtain ⟨n, hn, hsqueezes⟩ := ih (Or.inr rfl) hrest
    exact ⟨n, hn, cons hc.1.1 (hstep ▸ hsqueezes)⟩

theorem escapeChar (c : Char) : Squeezes .quoted (Json.escapeChar c) (Json.escapeChar c) .quoted := by
  have hescape : ∀ d, Squeezes .quoted ['\\', d] ['\\', d] .quoted := by
    intro d
    refine ⟨⟨fun h => (by cases h), fun h => (by cases h), trivial⟩, ?_, rfl⟩
    rfl
  unfold Json.escapeChar
  split_ifs with h1 h2 h3 h4 h5 h6 h7 h8
  any_goals exact hescape _
  · refine (hescape 'u').append (quoted ?_)
    have hdigit : ∀ n, n < 16 → Nat.digitChar n ≠ '"' ∧ Nat.digitChar n ≠ '\\' := by decide
    have hhigh := hdigit (c.toNat / 16) (by omega)
    have hlow := hdigit (c.toNat % 16) (Nat.mod_lt _ (by decide))
    simp [hhigh, hlow]
  · exact quoted (List.forall_mem_singleton.mpr ⟨h1, h2⟩)

theorem dumpChars (s : List Char) : Squeezes .quoted (Json.dumpChars s) (Json.dumpChars s) .bare := by
  induction s with
  | nil => exact ⟨⟨fun h => (by cases h), trivial⟩, rfl, rfl⟩
  | cons c s ih => exact (escapeChar c).append ih

theorem dumpStr (hm : m.Outside) (s : String) :
    Squeezes m (Json.dumpStr s) (Json.dumpStr s) .bare := by
  refine cons rfl ?_
  rw [Mode.step_outside hm rfl]
  exact dumpChars s.toList

theorem dumpNum (hm : m.Outside) (d : Decimal) :
    ∃ n, n.Outside ∧ Squeezes m (Json.dumpNum d) (Json.dumpNum d) n := by
  have hdigit : ∀ c : Char, c.isDigit = true → isPlain c = true := by
    intro c hc
    have hne : ∀ d : Char, d.isDigit = false → (c == d) = false := by
      rintro d hd
      refine beq_eq_false_iff_ne.mpr ?_
      rintro rfl
      rw [hc] at hd
      cases hd
    simp [isPlain, isWhite, isStructural, hne]
  refine plain hm fun c hc => ?_
  rw [Json.dumpNum, List.mem_append, List.mem_append] at hc
  rcases hc with (hc | hc) | hc
  · split_ifs at hc
    · obtain rfl := List.mem_singleton.mp hc
      rfl
    · cases hc
  · exact hdigit c (isDigit_of_mem_wholeDigits _ c hc)
  · split_ifs at hc
    · cases hc
    · rcases List.mem_cons.mp hc with rfl | hc
      · rfl
      · exact hdigit c (isDigit_of_mem_padDigits _ _ c hc)

end Squeezes

mutual

theorem squeezes_dumps : ∀ (j : Json) {m : Mode}, m.Outside →
    ∃ n, n.Outside ∧ Squeezes m (dumps j) (dump j) n
  | .null, _, hm => Squeezes.plain hm (List.all_eq_true.mp rfl)
  | .bool true, _, hm => Squeezes.plain hm (List.all_eq_true.mp rfl)
  | .bool false, _, hm => Squeezes.plain hm (List.all_eq_true.mp rfl)
  | .num d, _, hm => Squeezes.dumpNum hm d
  | .str s, _, hm => ⟨.bare, Or.inr rfl, Squeezes.dumpStr hm s⟩
  | .arr xs, _, hm => ⟨.behind, Or.inl rfl, (squeezes_items xs (Or.inl rfl)).structural hm rfl⟩
  | .obj kvs, _, hm => ⟨.behind, Or.inl rfl, (squeezes_fields kvs (Or.inl rfl)).structural hm rfl⟩

theorem squeezes_items : ∀ (xs : List Json) {m : Mode}, m.Outside →
    Squeezes m (dumpsItems xs) (dumpItems xs) .behind
  | [], _, hm => Squeezes.nil.structural hm rfl
  | [x], _, hm => by
    obtain ⟨n, hn, hx⟩ := squeezes_dumps x hm
    exact hx.append (Squeezes.nil.structural hn rfl)
  | x :: y :: ys, _, hm => by
    obtain ⟨n, hn, hx⟩ := squeezes_dumps x hm
    exact hx.append (((squeezes_items (y :: ys) (Or.inl rfl)).blank rfl).structural hn rfl)

theorem squeezes_fields : ∀ (kvs : List (String × Json)) {m : Mode}, m.Outside →
    Squeezes m (dumpsFields kvs) (dumpFields kvs) .behind
  | [], _, hm => Squeezes.nil.structural hm rfl
  | [kv], _, hm => by
    obtain ⟨n, hn, hkv⟩ := squeezes_field kv hm
    exact hkv.append (Squeezes.nil.structural hn rfl)
  | kv :: kw :: kws, _, hm => by
    obtain ⟨n, hn, hkv⟩ := squeezes_field kv hm
    exact hkv.append (((squeezes_fields (kw :: kws) (Or.inl rfl)).blank rfl).structural hn rfl)

theorem squeezes_field : ∀ (kv : String × Json) {m : Mode}, m.Outside →
    ∃ n, n.Outside ∧ Squeezes m (dumpsField kv) (dumpField kv) n
  | (k, v), _, hm => by
    obtain ⟨n, hn, hv⟩ := squeezes_dumps v (Or.inl rfl)
    exact ⟨n, hn, (Squeezes.dumpStr hm k).append ((hv.blank rfl).structural (Or.inr rfl) rfl)⟩

end

/-! ## Reading undoes writing -/

theorem squeeze_dumps (j : Json) : squeeze .behind (dumps j) = dump j := by
  obtain ⟨_, _, h⟩ := squeezes_dumps j (m := .behind) (Or.inl rfl)
  exact h.out

theorem loadsText_dumps (j : Json) : loadsText (dumps j) = some j := by
  rw [loadsText, squeeze_dumps, loads_dump]

theorem dumpsFields_getLast (kvs : List (String × Json)) :
    (dumpsFields kvs).getLast? = some '}' := by
  induction kvs with
  | nil => rfl
  | cons kv kvs ih =>
    cases kvs with
    | nil => rw [dumpsFields, List.getLast?_concat]
    | cons kw kws =>
      rw [dumpsFields, List.getLast?_append_of_ne_nil _ (List.cons_ne_nil _ _),
        List.getLast?_cons_cons, List.getLast?_cons, ih]
      rfl

/-- No part of an object's text is read. -/
theorem loadsText_cut {kvs : List (String × Json)} {p q : List Char}
    (hpq : p ++ q = dumps (.obj kvs)) (hq : q ≠ []) : loadsText p = none := by
  obtain ⟨_, _, h⟩ := squeezes_dumps (.obj kvs) (m := .behind) (Or.inl rfl)
  have htidy := h.tidy
  rw [← hpq] at htidy
  have hcut := squeeze_append htidy
  rw [hpq, h.out] at hcut
  have hlast : '}' ∈ q := by
    refine List.mem_of_getLast? ?_
    rw [← List.getLast?_append_of_ne_nil p hq, hpq, dumps, List.getLast?_cons,
      dumpsFields_getLast]
    rfl
  refine loads_cut hcut.symm (List.ne_nil_of_mem (mem_squeeze hlast rfl))

mutual

/-- What the text of a value is made of. -/
theorem spells_dumps : ∀ j : Json, Spells (dumps j) (chars j)
  | .null => spells_dump .null
  | .bool b => spells_dump (.bool b)
  | .num d => spells_dump (.num d)
  | .str s => spells_dumpStr s
  | .arr xs => .cons ⟨by decide, by decide⟩ (spells_dumpsItems xs)
  | .obj kvs => .cons ⟨by decide, by decide⟩ (spells_dumpsFields kvs)

theorem spells_dumpsItems : ∀ xs : List Json, Spells (dumpsItems xs) (charsItems xs)
  | [] => .cons ⟨by decide, by decide⟩ .nil
  | [x] => (spells_dumps x).append (.cons ⟨by decide, by decide⟩ .nil)
  | x :: y :: ys =>
    (spells_dumps x).append (.cons ⟨by decide, by decide⟩
      (.cons ⟨by decide, by decide⟩ (spells_dumpsItems (y :: ys))))

theorem spells_dumpsFields : ∀ kvs : List (String × Json),
    Spells (dumpsFields kvs) (charsFields kvs)
  | [] => .cons ⟨by decide, by decide⟩ .nil
  | [kv] => (spells_dumpsField kv).append (.cons ⟨by decide, by decide⟩ .nil)
  | kv :: kw :: kws =>
    (spells_dumpsField kv).append (.cons ⟨by decide, by decide⟩
      (.cons ⟨by decide, by decide⟩ (spells_dumpsFields (kw :: kws))))

theorem spells_dumpsField : ∀ kv : String × Json, Spells (dumpsField kv) (charsField kv)
  | (k, v) => (spells_dumpStr k).append (.cons ⟨by decide, by decide⟩
      (.cons ⟨by decide, by decide⟩ (spells_dumps v)))

end

end Json
