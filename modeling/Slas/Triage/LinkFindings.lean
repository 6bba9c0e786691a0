/-
  Slas.Triage.LinkFindings

  The fingerprints of what a comparison finds on PCIe links: whatever the address, the cycle and
  the widths, a kind of change on a device has one normalised text, and other kinds and other
  devices have others.

  Devices are told apart by their masked names in lower case.  A speed that is printed with a
  decimal point is masked in two parts.
-/

import Slas.Diff.Exact
import Slas.Triage.Fingerprint

namespace Slas

namespace Triage

open Diff

/-- The power cycles of a campaign. -/
inductive CycleKind where
  | warm
  | dc
  | ac
  deriving DecidableEq

/-- `kind.upper()` -/
def CycleKind.upper : CycleKind → String
  | warm => "WARM"
  | dc => "DC"
  | ac => "AC"

/-- The context of the comparison after a cycle. -/
def cycleContext (kind : CycleKind) (n : Nat) : String :=
  "during " ++ kind.upper ++ " cycle " ++ toString n

/-- The speeds of the devices are from the table of generations. -/
def FromTable (s : Snapshot) : Prop :=
  ∀ d ∈ s.inventory.devices, d.speedGts ∈ pcieGenGts.map Prod.snd

variable {U : Unicode}

/-! ## The words of a message -/

theorem isDigit_toDigits (n : Nat) : ∀ c ∈ Nat.toDigits 10 n, U.isDigit c = true := by
  intro c hc
  have hdigit : c.isDigit = true := Nat.isDigit_of_mem_toDigits (b := 10) (by decide) (by decide) hc
  have hascii : c.toNat < 128 := by
    simp only [Char.isDigit, Bool.and_eq_true, decide_eq_true_eq] at hdigit
    have hle : c.toNat ≤ 57 := hdigit.2
    omega
  rw [U.isDigit_ascii c hascii, hdigit]

theorem colon_toDigits (n : Nat) : ':' ∉ Nat.toDigits 10 n := by
  intro h
  have hdigit : ':'.isDigit = true :=
    Nat.isDigit_of_mem_toDigits (b := 10) (by decide) (by decide) h
  exact absurd hdigit (by decide)

theorem mask_ascii_word {w : List Char}
    (h : (w.all fun c => decide (c.toNat < 128) && !c.isDigit && c != ':') = true) :
    mask U w = w := by
  rw [List.all_eq_true] at h
  refine mask_word (fun c hc => ?_) fun hcolon => ?_
  · have hc := h c hc
    rw [Bool.and_eq_true] at hc
    exact isDigit_of_ascii hc.1
  · exact absurd (h ':' hcolon) (by decide)

theorem mask_number (n : Nat) : mask U (Nat.toDigits 10 n) = ['#'] := by
  have hmask : mask U (Nat.toDigits 10 n ++ []) = '#' :: mask U [] :=
    mask_digits (by simp) (isDigit_toDigits n) (by simpa using colon_toDigits n) (by simp)
  simpa using hmask

/-- `x16` -/
theorem mask_width (n : Nat) : mask U ('x' :: Nat.toDigits 10 n) = ['x', '#'] := by
  have hx : ∀ c ∈ ['x'], U.isDigit c = false := by
    intro c hc
    rw [List.mem_singleton.mp hc]
    exact isDigit_of_ascii (by decide)
  have hcolon : ':' ∉ ['x'] ++ Nat.toDigits 10 n := by
    simpa using colon_toDigits n
  have hmask := mask_plain hx hcolon
  rw [mask_number] at hmask
  exact hmask

theorem mask_sentenceEnd (n : Nat) : mask U (Nat.toDigits 10 n ++ ['.']) = ['#', '.'] := by
  have hcolon : ':' ∉ Nat.toDigits 10 n ++ ['.'] := by
    simpa using colon_toDigits n
  have hpoint : U.isDigit '.' = false := isDigit_of_ascii (by decide)
  rw [mask_digits (by simp) (isDigit_toDigits n) hcolon (by simp [hpoint]),
    mask_ascii_word (by decide)]

/-- The words of the cycle, up to the end of the sentence. -/
def cycleWords (kind : CycleKind) (n : Nat) : List Char :=
  "during".toList ++ ' ' :: (kind.upper.toList ++ ' ' :: ("cycle".toList ++ ' ' ::
    (Nat.toDigits 10 n ++ ['.'])))

/-- The words, without unfolding a text. -/
theorem cycleWords_eq (kind : CycleKind) (n : Nat) :
    cycleWords kind n = "during".toList ++ ' ' :: (kind.upper.toList ++ ' ' :: ("cycle".toList ++
      ' ' :: (Nat.toDigits 10 n ++ ['.']))) := rfl

theorem toList_where (kind : CycleKind) (n : Nat) :
    (whereOf (cycleContext kind n)).toList ++ ['.'] = ' ' :: cycleWords kind n := by
  have hne : cycleContext kind n ≠ "" := by
    intro h
    have hlist := congrArg String.toList h
    simp [cycleContext] at hlist
  have hdigits : (toString n).toList = Nat.toDigits 10 n := Nat.toList_repr
  have hduring : "during ".toList = "during".toList ++ [' '] := by decide
  have hcycle : " cycle ".toList = ' ' :: "cycle".toList ++ [' '] := by decide
  rw [whereOf, if_neg hne, cycleContext]
  simp only [String.toList_append, hdigits, hduring, hcycle, cycleWords_eq, List.append_assoc,
    List.cons_append, List.nil_append]
  rfl

def cycleMark (kind : CycleKind) : List Char :=
  "during".toList ++ ' ' :: (kind.upper.toList ++ ' ' :: ("cycle".toList ++ ' ' :: ['#', '.']))

theorem cycleMark_eq (kind : CycleKind) :
    cycleMark kind = "during".toList ++ ' ' :: (kind.upper.toList ++ ' ' :: ("cycle".toList ++
      ' ' :: ['#', '.'])) := rfl

theorem mask_cycleWords (kind : CycleKind) (n : Nat) :
    mask U (cycleWords kind n) = cycleMark kind := by
  have hkind : mask U kind.upper.toList = kind.upper.toList := by
    cases kind <;> exact mask_ascii_word (by decide)
  rw [cycleWords_eq, mask_blank, mask_blank, mask_blank, hkind, mask_sentenceEnd,
    mask_ascii_word (by decide), mask_ascii_word (by decide)]
  rfl

/-! ## The normalised text of a link finding -/

/-- What follows the name in a masked message. -/
def linkTail (before after : List Char) (kind : CycleKind) : List Char :=
  ['(', '#', ')', ':'] ++ ' ' :: (before ++ ' ' :: (['→'] ++ ' ' :: (after ++ ' ' ::
    cycleMark kind)))

/-- The words of a message about a link. -/
def linkWords (head name bdf before after : List Char) (kind : CycleKind) (n : Nat) : List Char :=
  head ++ ' ' :: (name ++ ' ' :: ('(' :: bdf ++ [')', ':'] ++ ' ' :: (before ++ ' ' ::
    (['→'] ++ ' ' :: (after ++ ' ' :: cycleWords kind n)))))

/-- The normalised text, by the name of the device and what is left of the values. -/
def linkNormal (head name before after : List Char) (kind : CycleKind) : List Char :=
  head.map Char.toLower ++ ' ' :: (name ++ ' ' :: (linkTail before after kind).map Char.toLower)

/-- The name of a device, as the normalised text has it. -/
def maskedName (U : Unicode) (name : List Char) : List Char := U.lower (mask U name)

theorem lower_ascii_of_all {w : List Char} (h : (w.all fun c => decide (c.toNat < 128)) = true) :
    U.lower w = w.map Char.toLower :=
  U.lower_ascii w fun c hc => of_decide_eq_true (List.all_eq_true.mp h c hc)

theorem lower_linkTail {before after : List Char} (kind : CycleKind)
    (hbefore : (before.all fun c => decide (c.toNat < 128)) = true)
    (hafter : (after.all fun c => decide (c.toNat < 128)) = true) :
    U.lower (linkTail before after kind) = (linkTail before after kind).map Char.toLower := by
  have hcycle : U.lower (cycleMark kind) = (cycleMark kind).map Char.toLower := by
    cases kind <;> exact lower_ascii_of_all (by decide)
  have harrow : ['→'].map Char.toLower = ['→'] := by decide
  have hblank : ∀ cs : List Char, (' ' :: cs).map Char.toLower = ' ' :: cs.map Char.toLower := by
    intro cs
    rw [List.map_cons, show Char.toLower ' ' = ' ' by decide]
  rw [linkTail, U.lower_blank, U.lower_blank, U.lower_blank, U.lower_blank,
    lower_ascii_of_all hbefore, lower_ascii_of_all hafter, hcycle, U.lower_arrow,
    lower_ascii_of_all (by decide)]
  simp only [List.map_append, hblank, harrow]

theorem strip_linkTail {c : Char} {cs before after : List Char} (kind : CycleKind)
    (hc : Lines.isSpace c = false) :
    Text.strip (c :: cs ++ linkTail before after kind) = c :: cs ++ linkTail before after kind := by
  refine Text.stripBy_of_trimmed ⟨fun x hx => ?_, fun x hx => ?_⟩
  · obtain rfl : c = x := Option.some.inj hx
    exact hc
  · have hlast : (c :: cs ++ linkTail before after kind).getLast? = some '.' := by
      simp [linkTail, cycleMark_eq, List.getLast?_append, List.getLast?_cons]
    rw [hlast] at hx
    obtain rfl : '.' = x := Option.some.inj hx
    decide

/-- The address, the number of the cycle and the masked values do not show in the normalised
    text. -/
theorem normalise_linkWords {head name bdf before after before' after' : List Char}
    {kind : CycleKind} {n : Nat} (hbdf : isBdf bdf = true)
    (hhead : (head.all fun c => decide (c.toNat < 128) && !c.isDigit && c != ':') = true)
    (hfirst : ∃ c cs, head = c :: cs ∧ Lines.isSpace c = false)
    (hbefore : mask U before = before') (hafter : mask U after = after')
    (hbefore' : (before'.all fun c => decide (c.toNat < 128)) = true)
    (hafter' : (after'.all fun c => decide (c.toNat < 128)) = true) :
    normalise U (linkWords head name bdf before after kind n) =
      linkNormal head (maskedName U name) before' after' kind := by
  have hmask : mask U (linkWords head name bdf before after kind n) =
      head ++ ' ' :: (mask U name ++ ' ' :: linkTail before' after' kind) := by
    have harrow : mask U ['→'] = ['→'] := by
      refine mask_word (fun c hc => ?_) (by decide)
      rw [List.mem_singleton.mp hc]
      exact U.isDigit_arrow
    rw [linkWords, mask_blank, mask_blank, mask_blank, mask_blank, mask_blank, mask_blank,
      mask_cycleWords, mask_address hbdf, hbefore, hafter, harrow, mask_ascii_word hhead]
    rfl
  have hstrip : Text.strip (head ++ ' ' :: (mask U name ++ ' ' :: linkTail before' after' kind)) =
      head ++ ' ' :: (mask U name ++ ' ' :: linkTail before' after' kind) := by
    obtain ⟨c, cs, rfl, hc⟩ := hfirst
    have hassoc : c :: cs ++ ' ' :: (mask U name ++ ' ' :: linkTail before' after' kind) =
        c :: (cs ++ ' ' :: (mask U name ++ [' '])) ++ linkTail before' after' kind := by
      simp
    rw [hassoc]
    exact strip_linkTail kind hc
  have hlower : U.lower head = head.map Char.toLower := by
    refine U.lower_ascii head fun c hc => ?_
    have hc := List.all_eq_true.mp hhead c hc
    simp only [Bool.and_eq_true, decide_eq_true_eq] at hc
    exact hc.1.1
  rw [normalise, hmask, hstrip, U.lower_blank, U.lower_blank, lower_linkTail kind hbefore' hafter',
    hlower]
  rfl

def widthHead : List Char := "PCIe link width changed on".toList

def speedHead : List Char := "PCIe link speed changed on".toList

theorem toList_widthMessage (kind : CycleKind) (n : Nat) (bdf : String) (d e : PcieDevice) :
    (widthFinding (whereOf (cycleContext kind n)) bdf d e).message.toList =
      linkWords widthHead d.name.toList d.bdf.toList ('x' :: Nat.toDigits 10 d.width)
        ('x' :: Nat.toDigits 10 e.width) kind n := by
  have hdigits : ∀ k : Nat, (toString k).toList = Nat.toDigits 10 k := fun k => Nat.toList_repr
  have hwhere := toList_where kind n
  have hhead : "PCIe link width changed on ".toList = widthHead ++ [' '] := by decide
  simp only [widthFinding, PcieDevice.label, String.toList_append, hdigits, hhead, linkWords,
    List.append_assoc, List.cons_append, List.nil_append, ← hwhere]
  rfl

theorem toList_speedMessage (kind : CycleKind) (n : Nat) (bdf : String) (d e : PcieDevice) :
    (speedFinding (whereOf (cycleContext kind n)) bdf d e).message.toList =
      linkWords speedHead d.name.toList d.bdf.toList
        (d.speedGts.text.toList ++ ' ' :: "GT/s".toList) (e.speedGts.text.toList ++ ' ' :: "GT/s".toList) kind n := by
  have hwhere := toList_where kind n
  have hhead : "PCIe link speed changed on ".toList = speedHead ++ [' '] := by decide
  simp only [speedFinding, PcieDevice.label, String.toList_append, hhead, linkWords,
    List.append_assoc, List.cons_append, List.nil_append, ← hwhere]
  rfl

/-! ## Speeds of the table -/

/-- What is left of a speed, by whether it is printed with a decimal point. -/
def speedMark (point : Bool) : List Char :=
  (if point then ['#', '.', '#'] else ['#']) ++ ' ' :: "GT/s".toList

/-- Whether a value is printed with a decimal point. -/
def hasPoint (text : String) : Bool := text.toList.contains '.'

theorem mask_decimal (a b : Nat) :
    mask U (Nat.toDigits 10 a ++ '.' :: Nat.toDigits 10 b) = ['#', '.', '#'] := by
  have hcolon : ':' ∉ Nat.toDigits 10 a ++ '.' :: Nat.toDigits 10 b := by
    simp [colon_toDigits]
  have hpoint : U.isDigit '.' = false := isDigit_of_ascii (by decide)
  have hrest : mask U ('.' :: Nat.toDigits 10 b) = '.' :: mask U (Nat.toDigits 10 b) := by
    refine mask_plain (w := ['.']) (fun c hc => ?_) fun h => hcolon (List.mem_append_right _ h)
    rw [List.mem_singleton.mp hc]
    exact hpoint
  rw [mask_digits (by simp) (isDigit_toDigits a) hcolon (by simp [hpoint]), hrest, mask_number]

theorem mask_tableSpeed {speed : Gts} (h : speed ∈ pcieGenGts.map Prod.snd) :
    mask U (speed.text.toList ++ ' ' :: "GT/s".toList) = speedMark (hasPoint speed.text) := by
  have hwhole : ∀ (text : String) (k : Nat), text.toList = Nat.toDigits 10 k →
      hasPoint text = false → speed.text = text →
      mask U (speed.text.toList ++ ' ' :: "GT/s".toList) = speedMark (hasPoint speed.text) := by
    intro text k hdigits hpoint htext
    rw [htext, hpoint, mask_blank, hdigits, mask_number, mask_ascii_word (by decide)]
    rfl
  simp only [pcieGenGts, List.map_cons, List.map_nil, List.mem_cons, List.not_mem_nil,
    or_false] at h
  rcases h with h | h | h | h | h | h
  · have htext : speed.text = "2.5" := by
      rw [h]
      decide +kernel
    have hdigits : "2.5".toList = Nat.toDigits 10 2 ++ '.' :: Nat.toDigits 10 5 := by decide
    rw [htext, mask_blank, hdigits, mask_decimal, mask_ascii_word (by decide)]
    rfl
  · exact hwhole "5" 5 (by decide) (by decide) (by rw [h]; decide +kernel)
  · exact hwhole "8" 8 (by decide) (by decide) (by rw [h]; decide +kernel)
  · exact hwhole "16" 16 (by decide) (by decide) (by rw [h]; decide +kernel)
  · exact hwhole "32" 32 (by decide) (by decide) (by rw [h]; decide +kernel)
  · exact hwhole "64" 64 (by decide) (by decide) (by rw [h]; decide +kernel)

theorem hasPoint_speed (text : String) : hasPoint (text ++ " GT/s") = hasPoint text := by
  have hunit : " GT/s".toList.contains '.' = false := by decide
  rw [hasPoint, String.toList_append, List.contains_append, hunit, Bool.or_false]
  rfl

/-! ## What a link finding comes to -/

section

variable {b c : Snapshot} {cycle : CycleKind} {n : Nat} {f : DiffFinding}

theorem normalise_width (hf : f ∈ (diffSnapshots b c (cycleContext cycle n)).findings)
    (hkind : f.kind = .pcieWidth) : ∃ name, f.component = some name ∧
      normalise U f.message.toList =
        linkNormal widthHead (maskedName U name.toList) ['x', '#'] ['x', '#'] cycle := by
  obtain ⟨d, -, e, -, hlink⟩ := link_of_mem hf (.inl hkind)
  rcases mem_linkFindings.mp hlink with ⟨-, rfl⟩ | ⟨-, rfl⟩
  · refine ⟨d.name, rfl, ?_⟩
    rw [toList_widthMessage]
    exact normalise_linkWords d.bdf_ok (by decide) ⟨'P', _, rfl, by decide⟩ (mask_width _)
      (mask_width _) (by decide) (by decide)
  · cases hkind

theorem normalise_speed (hf : f ∈ (diffSnapshots b c (cycleContext cycle n)).findings)
    (hkind : f.kind = .pcieSpeed) (hb : FromTable b) (hc : FromTable c) :
    ∃ name, f.component = some name ∧ normalise U f.message.toList =
      linkNormal speedHead (maskedName U name.toList) (speedMark (hasPoint f.before))
        (speedMark (hasPoint f.after)) cycle := by
  obtain ⟨d, hd, e, he, hlink⟩ := link_of_mem hf (.inr hkind)
  rcases mem_linkFindings.mp hlink with ⟨-, rfl⟩ | ⟨-, rfl⟩
  · cases hkind
  · refine ⟨d.name, rfl, ?_⟩
    have hascii : ∀ point, ((speedMark point).all fun c => decide (c.toNat < 128)) = true := by
      decide
    rw [toList_speedMessage]
    simp only [speedFinding, hasPoint_speed]
    exact normalise_linkWords d.bdf_ok (by decide) ⟨'P', _, rfl, by decide⟩
      (mask_tableSpeed (hb d hd)) (mask_tableSpeed (hc e he)) (hascii _) (hascii _)

end

/-! ## Texts that differ -/

/-- The two kinds of link findings have other texts from the tenth character on. -/
theorem width_ne_speed {name name' b a b' a' : List Char} {k k' : CycleKind} :
    linkNormal widthHead name b a k ≠ linkNormal speedHead name' b' a' k' := by
  intro h
  have hhead : widthHead.map Char.toLower = speedHead.map Char.toLower :=
    (List.append_inj h (by decide)).1
  exact absurd hhead (by decide)

/-- What follows the name in a normalised text, over the values that are left. -/
def tails (values : List (List Char)) : List (List Char) :=
  values.flatMap fun before => values.flatMap fun after =>
    [CycleKind.warm, .dc, .ac].map fun cycle =>
      ' ' :: (linkTail before after cycle).map Char.toLower

theorem mem_tails {values : List (List Char)} {before after : List Char} (cycle : CycleKind)
    (hbefore : before ∈ values) (hafter : after ∈ values) :
    ' ' :: (linkTail before after cycle).map Char.toLower ∈ tails values := by
  refine List.mem_flatMap.mpr ⟨before, hbefore, List.mem_flatMap.mpr ⟨after, hafter, ?_⟩⟩
  exact List.mem_map.mpr ⟨cycle, by cases cycle <;> simp, rfl⟩

/-- No tail is the end of another one. -/
def SuffixFree (ss : List (List Char)) : Prop :=
  (ss.all fun s => ss.all fun t => !s.isSuffixOf t || s == t) = true

/-- What stands before two of them is the same where the texts are. -/
theorem SuffixFree.cancel {ss : List (List Char)} (hfree : SuffixFree ss) {s t x y : List Char}
    (hs : s ∈ ss) (ht : t ∈ ss) (h : x ++ s = y ++ t) : x = y := by
  have heq : ∀ s ∈ ss, ∀ t ∈ ss, s <:+ t → s = t := by
    intro s hs t ht hsuffix
    have hst := List.all_eq_true.mp (List.all_eq_true.mp hfree s hs) t ht
    rw [List.isSuffixOf_iff_suffix.mpr hsuffix] at hst
    exact eq_of_beq hst
  have hst : s = t := by
    rcases List.suffix_or_suffix_of_suffix (List.suffix_append x s)
      (h ▸ List.suffix_append y t) with hsuffix | hsuffix
    · exact heq s hs t ht hsuffix
    · exact (heq t ht s hs hsuffix).symm
  rw [hst] at h
  exact List.append_cancel_right h

theorem suffixFree_width : SuffixFree (tails [['x', '#']]) := by
  unfold SuffixFree
  decide +kernel

theorem suffixFree_speed : SuffixFree (tails [speedMark true, speedMark false]) := by
  unfold SuffixFree
  decide +kernel

/-- Two texts of one kind differ where the names do. -/
theorem linkNormal_name {values : List (List Char)} (hfree : SuffixFree (tails values))
    {head name name' b a b' a' : List Char} {k k' : CycleKind} (hb : b ∈ values) (ha : a ∈ values)
    (hb' : b' ∈ values) (ha' : a' ∈ values)
    (h : linkNormal head name b a k = linkNormal head name' b' a' k') : name = name' :=
  hfree.cancel (mem_tails k hb ha) (mem_tails k' hb' ha')
    (List.cons.inj (List.append_cancel_left h)).2

/-! ## Fingerprints of link findings -/

/-- Two findings on PCIe links, of any comparisons after power cycles.  Of one kind, on devices
    of one name and after cycles of one kind, they share their fingerprint, if their speeds are
    printed without a decimal point.  Of two kinds, or on devices whose masked names differ,
    their normalised texts differ. -/
theorem link_fingerprints (sha256 : List Char → List Char) {b c b' c' : Snapshot}
    {cycle cycle' : CycleKind} {n n' : Nat} {f g : DiffFinding}
    (hf : f ∈ (diffSnapshots b c (cycleContext cycle n)).findings)
    (hg : g ∈ (diffSnapshots b' c' (cycleContext cycle' n')).findings)
    (hfkind : f.kind = .pcieWidth ∨ f.kind = .pcieSpeed)
    (hgkind : g.kind = .pcieWidth ∨ g.kind = .pcieSpeed)
    (hftable : f.kind = .pcieSpeed → FromTable b ∧ FromTable c)
    (hgtable : g.kind = .pcieSpeed → FromTable b' ∧ FromTable c') :
    (f.kind = g.kind → f.component = g.component → cycle = cycle' →
      (f.kind = .pcieSpeed → hasPoint f.before = false ∧ hasPoint f.after = false ∧
        hasPoint g.before = false ∧ hasPoint g.after = false) →
      fingerprint U sha256 f.message.toList = fingerprint U sha256 g.message.toList) ∧
    (f.kind ≠ g.kind → normalise U f.message.toList ≠ normalise U g.message.toList) ∧
    ∀ x y, f.component = some x → g.component = some y →
      maskedName U x.toList ≠ maskedName U y.toList →
      normalise U f.message.toList ≠ normalise U g.message.toList := by
  have hmark : ∀ point, speedMark point ∈ [speedMark true, speedMark false] := by
    intro point
    cases point <;> simp
  rcases hfkind with hfk | hfk <;> rcases hgkind with hgk | hgk
  · obtain ⟨x, hx, hnormal⟩ := normalise_width (U := U) hf hfk
    obtain ⟨y, hy, hnormal'⟩ := normalise_width (U := U) hg hgk
    rw [hnormal, hnormal', fingerprint, fingerprint, hnormal, hnormal']
    refine ⟨fun _ hname hcycle _ => ?_, fun hne => absurd (hfk.trans hgk.symm) hne, ?_⟩
    · rw [hx, hy] at hname
      rw [Option.some.inj hname, hcycle]
    · intro x' y' hx' hy' hne h
      obtain rfl : x = x' := Option.some.inj (hx.symm.trans hx')
      obtain rfl : y = y' := Option.some.inj (hy.symm.trans hy')
      exact hne (linkNormal_name suffixFree_width (by simp) (by simp) (by simp) (by simp) h)
  · obtain ⟨x, hx, hnormal⟩ := normalise_width (U := U) hf hfk
    obtain ⟨y, hy, hnormal'⟩ := normalise_speed (U := U) hg hgk (hgtable hgk).1 (hgtable hgk).2
    rw [hnormal, hnormal']
    refine ⟨fun hkind => ?_, fun _ => width_ne_speed, fun _ _ _ _ _ => width_ne_speed⟩
    rw [hfk, hgk] at hkind
    cases hkind
  · obtain ⟨x, hx, hnormal⟩ := normalise_speed (U := U) hf hfk (hftable hfk).1 (hftable hfk).2
    obtain ⟨y, hy, hnormal'⟩ := normalise_width (U := U) hg hgk
    rw [hnormal, hnormal']
    refine ⟨fun hkind => ?_, fun _ => width_ne_speed.symm, fun _ _ _ _ _ => width_ne_speed.symm⟩
    rw [hfk, hgk] at hkind
    cases hkind
  · obtain ⟨x, hx, hnormal⟩ := normalise_speed (U := U) hf hfk (hftable hfk).1 (hftable hfk).2
    obtain ⟨y, hy, hnormal'⟩ := normalise_speed (U := U) hg hgk (hgtable hgk).1 (hgtable hgk).2
    rw [hnormal, hnormal', fingerprint, fingerprint, hnormal, hnormal']
    refine ⟨fun _ hname hcycle hwhole => ?_, fun hne => absurd (hfk.trans hgk.symm) hne, ?_⟩
    · obtain ⟨h₁, h₂, h₃, h₄⟩ := hwhole hfk
      rw [hx, hy] at hname
      rw [Option.some.inj hname, hcycle, h₁, h₂, h₃, h₄]
    · intro x' y' hx' hy' hne h
      obtain rfl : x = x' := Option.some.inj (hx.symm.trans hx')
      obtain rfl : y = y' := Option.some.inj (hy.symm.trans hy')
      exact hne (linkNormal_name suffixFree_speed (hmark _) (hmark _) (hmark _) (hmark _) h)

/-- Tables that know the ASCII characters only. -/
def asciiOnly : Unicode where
  isDigit := Char.isDigit
  isWord c := c.isAlphanum || c = '_'
  lower := List.map Char.toLower
  isDigit_ascii _ _ := rfl
  isWord_ascii _ _ := rfl
  isDigit_arrow := by decide
  lower_ascii _ _ := rfl
  lower_arrow := by decide
  lower_blank cs ds := by
    rw [List.map_append, List.map_cons, show Char.toLower ' ' = ' ' by decide]

theorem gen5_pos : 0 < ((32 : Rat) : Gts) := by decide

def deviceAt (bdf name : String) (width : Nat) (hbdf : isBdf bdf.toList = true) (hname : name ≠ "")
    (hwidth : 1 ≤ width ∧ width ≤ 32) : PcieDevice where
  bdf := bdf
  name := name
  width := width
  speedGts := (32 : Rat)
  bdf_ok := hbdf
  name_ok := hname
  width_ok := hwidth
  speed_ok := gen5_pos

theorem keyed_snapshotOf (d : PcieDevice) : (snapshotOf [d]).Keyed := List.nodup_singleton _

theorem widthFinding_mem {d e : PcieDevice} {context : String} (hbdf : d.bdf = e.bdf)
    (hwidth : e.width ≠ d.width) :
    widthFinding (whereOf context) d.bdf d e ∈
      (diffSnapshots (snapshotOf [d]) (snapshotOf [e]) context).findings := by
  have hdevices : widthFinding (whereOf context) d.bdf d e ∈
      deviceFindings (snapshotOf [d]) (snapshotOf [e]) (whereOf context) :=
    (mem_deviceFindings (keyed_snapshotOf d) (keyed_snapshotOf e)).mpr (.inr (.inr (.inl
      ⟨d, List.mem_singleton.mpr rfl, e, List.mem_singleton.mpr rfl, hbdf,
        mem_linkFindings.mpr (.inl ⟨hwidth, rfl⟩)⟩)))
  exact List.mem_append_left _ (List.mem_append_left _ hdevices)

/-- A device whose link has changed its width, and the finding of a cycle about it. -/
def narrowed (bdf name : String) (hbdf : isBdf bdf.toList = true) (hname : name ≠ "") (n : Nat) :
    DiffFinding :=
  widthFinding (whereOf (cycleContext .dc n)) bdf
    (deviceAt bdf name 16 hbdf hname (by decide)) (deviceAt bdf name 8 hbdf hname (by decide))

theorem narrowed_mem {bdf name : String} (hbdf : isBdf bdf.toList = true) (hname : name ≠ "")
    (n : Nat) : narrowed bdf name hbdf hname n ∈ (diffSnapshots
      (snapshotOf [deviceAt bdf name 16 hbdf hname (by decide)])
      (snapshotOf [deviceAt bdf name 8 hbdf hname (by decide)]) (cycleContext .dc n)).findings := by
  have hwidth : (8 : Nat) ≠ 16 := by decide
  exact widthFinding_mem rfl hwidth

theorem kind_narrowed {bdf name : String} (hbdf : isBdf bdf.toList = true) (hname : name ≠ "")
    (n : Nat) : (narrowed bdf name hbdf hname n).kind = .pcieWidth := rfl

theorem component_narrowed {bdf name : String} (hbdf : isBdf bdf.toList = true)
    (hname : name ≠ "") (n : Nat) : (narrowed bdf name hbdf hname n).component = some name := rfl

theorem link_fingerprints_gpu :
    fingerprint asciiOnly id
      (narrowed "0000:8a:00.0" "GPU3" (by decide) (by decide) 14).message.toList =
    fingerprint asciiOnly id
      (narrowed "0000:1a:00.0" "GPU3" (by decide) (by decide) 15).message.toList := by
  have hbdf : isBdf "0000:8a:00.0".toList = true := by decide
  have hbdf' : isBdf "0000:1a:00.0".toList = true := by decide
  have hname : "GPU3" ≠ "" := by decide
  have hlink := link_fingerprints (U := asciiOnly) id (narrowed_mem hbdf hname 14)
    (narrowed_mem hbdf' hname 15) (.inl (kind_narrowed hbdf hname 14))
    (.inl (kind_narrowed hbdf' hname 15)) (fun h => by cases h) fun h => by cases h
  have hcomponent := (component_narrowed hbdf hname 14).trans
    (component_narrowed hbdf' hname 15).symm
  exact hlink.1 rfl hcomponent rfl fun h => by cases h

/-- Two models whose names differ in a digit share the normalised text. -/
theorem h100_h200 :
    narrowed "0000:8a:00.0" "H100" (by decide) (by decide) 1 ∈ (diffSnapshots
      (snapshotOf [deviceAt "0000:8a:00.0" "H100" 16 (by decide) (by decide) (by decide)])
      (snapshotOf [deviceAt "0000:8a:00.0" "H100" 8 (by decide) (by decide) (by decide)])
      (cycleContext .dc 1)).findings ∧
    narrowed "0000:8a:00.0" "H200" (by decide) (by decide) 1 ∈ (diffSnapshots
      (snapshotOf [deviceAt "0000:8a:00.0" "H200" 16 (by decide) (by decide) (by decide)])
      (snapshotOf [deviceAt "0000:8a:00.0" "H200" 8 (by decide) (by decide) (by decide)])
      (cycleContext .dc 1)).findings ∧
    normalise asciiOnly (narrowed "0000:8a:00.0" "H100" (by decide) (by decide) 1).message.toList =
      normalise asciiOnly
        (narrowed "0000:8a:00.0" "H200" (by decide) (by decide) 1).message.toList := by
  have hbdf : isBdf "0000:8a:00.0".toList = true := by decide
  have h100 : "H100" ≠ "" := by decide
  have h200 : "H200" ≠ "" := by decide
  refine ⟨narrowed_mem hbdf h100 1, narrowed_mem hbdf h200 1, ?_⟩
  obtain ⟨x, hx, hnormal⟩ := normalise_width (U := asciiOnly) (narrowed_mem hbdf h100 1)
    (kind_narrowed hbdf h100 1)
  obtain ⟨y, hy, hnormal'⟩ := normalise_width (U := asciiOnly) (narrowed_mem hbdf h200 1)
    (kind_narrowed hbdf h200 1)
  obtain rfl := Option.some.inj ((component_narrowed hbdf h100 1).symm.trans hx)
  obtain rfl := Option.some.inj ((component_narrowed hbdf h200 1).symm.trans hy)
  have hname : maskedName asciiOnly "H100".toList = maskedName asciiOnly "H200".toList := by
    decide +kernel
  rw [hnormal, hnormal', hname]

end Triage

end Slas
