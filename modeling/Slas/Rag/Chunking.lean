/-
  Slas.Rag.Chunking

  `chunk_text` of `slas_rag.documents`: a text is split at blank lines, its paragraphs are packed
  into chunks, and a long paragraph is cut into pieces that overlap.  Where a paragraph begins is
  found by a search in the text.

  `chunkText_covers`: no chunk is empty or too long, the chunks begin where they say they do,
  and nothing but white space is left out.
-/

import Mathlib.Tactic.Ring
import Slas.Lib.RegexLanguage
import Slas.Lib.Patterns
import Slas.Lib.Text

namespace Slas

namespace Rag

open Regex

/-! ## Paragraphs -/

def DEFAULT_OVERLAP_CHARS : Int := 100

/-- `_PARAGRAPH_BREAK` -/
def PARAGRAPH_BREAK : Re := .all [.char '\n', .star (.cls Lines.isSpace), .char '\n']

/-- A piece of the text, and where it begins. -/
abbrev Piece := Nat × List Char

/-- The checked arguments. -/
structure Sizes where
  maxChars : Nat
  overlap : Nat
  smaller : overlap < maxChars

/-- The pieces of a long paragraph that begins at `start`, from `cursor` on. -/
def cut (sizes : Sizes) (start : Nat) (stripped : List Char) (cursor : Nat) : List Piece :=
  if cursor < stripped.length then
    let stop := min (cursor + sizes.maxChars) stripped.length
    (start + cursor, (stripped.take stop).drop cursor) ::
      if stop = stripped.length then [] else cut sizes start stripped (stop - sizes.overlap)
  else []
termination_by stripped.length - cursor
decreasing_by
  have := sizes.smaller
  omega

/-- The pieces of the paragraphs, each of them searched from `offset` on; `index` raises if there
    is no such place. -/
def piecesFrom (sizes : Sizes) (text : List Char) : Int → List (List Char) → Option (List Piece)
  | _, [] => some []
  | offset, paragraph :: paragraphs =>
    let stripped := Text.strip paragraph
    if stripped = [] then
      let found := match Patterns.findFrom paragraph text offset with
        | some place => (place : Int)
        | none => -1
      piecesFrom sizes text (found + paragraph.length) paragraphs
    else do
      let start ← Patterns.findFrom stripped text offset
      let pieces := if stripped.length ≤ sizes.maxChars then [(start, stripped)]
        else cut sizes start stripped 0
      let later ← piecesFrom sizes text (start + stripped.length) paragraphs
      return pieces ++ later

/-! ## Chunks -/

/-- The chunks so far, and the pieces of the one that is packed, without the places they begin. -/
structure Packing where
  chunks : List Piece := []
  start : Nat := 0
  current : List (List Char) := []
  length : Nat := 0

/-- `"\n\n".join` -/
def joined (pieces : List (List Char)) : List Char := ['\n', '\n'].intercalate pieces

namespace Packing

def flush (packing : Packing) : Packing :=
  { packing with
    chunks := packing.chunks ++ [(packing.start, joined packing.current)]
    current := []
    length := 0 }

def add (maxChars : Nat) (packing : Packing) (piece : Piece) : Packing :=
  let extra := piece.2.length + if packing.current = [] then 0 else 2
  let packing := if packing.current ≠ [] ∧ maxChars < packing.length + extra then packing.flush
    else packing
  { packing with
    start := if packing.current = [] then piece.1 else packing.start
    current := packing.current ++ [piece.2]
    length := packing.length + extra }

def finish (packing : Packing) : List Piece :=
  if packing.current = [] then packing.chunks else packing.flush.chunks

end Packing

/-- `ValueError`, with what it says. -/
inductive ChunkError where
  | maxChars
  | overlap
  | notFound
  deriving DecidableEq

/-- `chunk_text` -/
def chunkText (text : List Char) (maxChars : Int) (overlap : Option Int) :
    Except ChunkError (List Piece) :=
  if maxChars < 1 then .error .maxChars
  else
    let overlap := overlap.getD (min DEFAULT_OVERLAP_CHARS (maxChars / 8))
    if h : 0 ≤ overlap ∧ overlap < maxChars then
      let sizes : Sizes := ⟨maxChars.toNat, overlap.toNat, by omega⟩
      match piecesFrom sizes text 0 (Patterns.split PARAGRAPH_BREAK.pattern text) with
      | none => .error .notFound
      | some pieces => .ok (pieces.foldl (Packing.add sizes.maxChars) {}).finish
    else .error .overlap

/-! ## The pieces of a text -/

/-- White space. -/
def Blank (cs : List Char) : Prop := ∀ c ∈ cs, Lines.isSpace c = true

theorem Blank.append {cs ds : List Char} (hcs : Blank cs) (hds : Blank ds) : Blank (cs ++ ds) := by
  intro c hc
  rcases List.mem_append.mp hc with hc | hc
  · exact hcs c hc
  · exact hds c hc

/-- A match of `_PARAGRAPH_BREAK` is white space in front of the rest. -/
theorem paragraphBreak_spec (prev : Option Char) (cs group rest : List Char)
    (h : PARAGRAPH_BREAK.pattern prev cs = some (group, rest)) :
    cs = group ++ rest ∧ group ≠ [] ∧ Blank group := by
  obtain ⟨hgroup, htext⟩ := Re.pattern_spec h
  refine ⟨htext, ?_, ?_⟩
  · obtain ⟨first, hfirst, later, _, rfl⟩ := Language.mem_mul.mp hgroup
    obtain ⟨c, _, rfl⟩ := hfirst
    simp
  · intro c hc
    have htakes := Re.takes_of_mem hgroup c hc
    simp only [PARAGRAPH_BREAK, Re.all, List.foldr_cons, List.foldr_nil, Re.char, Re.takes,
      Bool.or_false, Bool.or_eq_true, decide_eq_true_eq] at htakes
    rcases htakes with rfl | hspace | rfl
    · rfl
    · exact hspace
    · rfl

/-- What a paragraph is around what is left of it by `strip`. -/
theorem exists_strip (cs : List Char) :
    ∃ lead trail, cs = lead ++ (Text.strip cs ++ trail) ∧ Blank lead ∧ Blank trail := by
  refine ⟨cs.takeWhile Lines.isSpace, (cs.dropWhile Lines.isSpace).rtakeWhile Lines.isSpace,
    ?_, fun c hc => List.mem_takeWhile_imp hc, fun c hc => List.mem_rtakeWhile_imp hc⟩
  rw [Text.strip, Text.stripBy, List.rdropWhile_append_rtakeWhile,
    List.takeWhile_append_dropWhile]

/-- The pieces of a stretch of the text: each is not empty and not too long, it is where it says
    that it begins, one begins after the other, and nothing but white space is left out. -/
structure Found (maxChars : Nat) (text : List Char) (start stop : Nat) (pieces : List Piece) :
    Prop where
  placed : ∀ piece ∈ pieces, piece.2 <+: text.drop piece.1
  sized : ∀ piece ∈ pieces, piece.2 ≠ [] ∧ piece.2.length ≤ maxChars
  within : ∀ piece ∈ pieces, start ≤ piece.1 ∧ piece.1 < stop
  increasing : pieces.Pairwise (·.1 < ·.1)
  covered : ∀ i c, start ≤ i → i < stop → text[i]? = some c → Lines.isSpace c = false →
    ∃ piece ∈ pieces, piece.1 ≤ i ∧ i < piece.1 + piece.2.length

namespace Found

variable {maxChars : Nat} {text : List Char} {start stop : Nat} {pieces : List Piece}

/-- There are no pieces of white space. -/
theorem blank (maxChars : Nat) (before after : List Char) {gap : List Char} (hgap : Blank gap) :
    Found maxChars (before ++ (gap ++ after)) before.length (before.length + gap.length) [] where
  placed := by simp
  sized := by simp
  within := by simp
  increasing := List.Pairwise.nil
  covered i c hstart hstop hc hspace := by
    rw [List.getElem?_append_right hstart, List.getElem?_append_left (by omega)] at hc
    rw [hgap c (List.mem_of_getElem? hc)] at hspace
    exact absurd hspace (by decide)

theorem append {middle : Nat} {later : List Piece} (h : Found maxChars text start middle pieces)
    (hlater : Found maxChars text middle stop later) (hstart : start ≤ middle)
    (hstop : middle ≤ stop) : Found maxChars text start stop (pieces ++ later) where
  placed piece hpiece := (List.mem_append.mp hpiece).elim (h.placed piece) (hlater.placed piece)
  sized piece hpiece := (List.mem_append.mp hpiece).elim (h.sized piece) (hlater.sized piece)
  within piece hpiece := by
    rcases List.mem_append.mp hpiece with hpiece | hpiece
    · have := h.within piece hpiece
      omega
    · have := hlater.within piece hpiece
      omega
  increasing := by
    refine List.pairwise_append.mpr ⟨h.increasing, hlater.increasing, fun p hp q hq => ?_⟩
    exact (h.within p hp).2.trans_le (hlater.within q hq).1
  covered i c hi hi' hc hspace := by
    rcases Nat.lt_or_ge i middle with hlt | hge
    · obtain ⟨piece, hpiece, hin⟩ := h.covered i c hi hlt hc hspace
      exact ⟨piece, List.mem_append_left _ hpiece, hin⟩
    · obtain ⟨piece, hpiece, hin⟩ := hlater.covered i c hge hi' hc hspace
      exact ⟨piece, List.mem_append_right _ hpiece, hin⟩

/-- A piece in front of others, which may begin within it. -/
theorem cons (piece : Piece) {next : Nat} (hplaced : piece.2 <+: text.drop piece.1)
    (hsized : piece.2 ≠ [] ∧ piece.2.length ≤ maxChars)
    (hlater : Found maxChars text next stop pieces) (hnext : piece.1 < next)
    (hover : next ≤ piece.1 + piece.2.length) (hstop : piece.1 < stop) :
    Found maxChars text piece.1 stop (piece :: pieces) where
  placed := List.forall_mem_cons.mpr ⟨hplaced, hlater.placed⟩
  sized := List.forall_mem_cons.mpr ⟨hsized, hlater.sized⟩
  within := by
    refine List.forall_mem_cons.mpr ⟨⟨le_rfl, hstop⟩, fun q hq => ?_⟩
    have := hlater.within q hq
    omega
  increasing := by
    refine List.pairwise_cons.mpr ⟨fun q hq => ?_, hlater.increasing⟩
    exact hnext.trans_le (hlater.within q hq).1
  covered i c hi hi' hc hspace := by
    rcases Nat.lt_or_ge i (piece.1 + piece.2.length) with hlt | hge
    · exact ⟨piece, List.mem_cons_self, hi, hlt⟩
    · obtain ⟨q, hq, hin⟩ := hlater.covered i c (hover.trans hge) hi' hc hspace
      exact ⟨q, List.mem_cons_of_mem _ hq, hin⟩

/-- A piece alone. -/
theorem single (piece : Piece) (hplaced : piece.2 <+: text.drop piece.1)
    (hsized : piece.2 ≠ [] ∧ piece.2.length ≤ maxChars) :
    Found maxChars text piece.1 (piece.1 + piece.2.length) [piece] := by
  have hpos := List.length_pos_iff.mpr hsized.1
  have hnone : Found maxChars text (piece.1 + piece.2.length) (piece.1 + piece.2.length) [] := by
    refine ⟨by simp, by simp, by simp, List.Pairwise.nil, ?_⟩
    intro i c hi hi'
    omega
  exact cons piece hplaced hsized hnone (by omega) le_rfl (by omega)

end Found

/-- The pieces of a long paragraph, from a place in it on. -/
theorem found_cut (sizes : Sizes) (before stripped after : List Char) (cursor : Nat)
    (hcursor : cursor < stripped.length) :
    Found sizes.maxChars (before ++ (stripped ++ after)) (before.length + cursor)
      (before.length + stripped.length) (cut sizes before.length stripped cursor) := by
  induction hn : stripped.length - cursor using Nat.strongRecOn generalizing cursor with
  | ind n ih =>
    subst hn
    have hsmaller := sizes.smaller
    obtain ⟨stop, hstop⟩ : ∃ stop, stop = min (cursor + sizes.maxChars) stripped.length :=
      ⟨_, rfl⟩
    have hlength : ((stripped.take stop).drop cursor).length = stop - cursor := by
      rw [List.length_drop, List.length_take]
      omega
    have hplaced : (stripped.take stop).drop cursor <+:
        (before ++ (stripped ++ after)).drop (before.length + cursor) := by
      rw [List.drop_length_add_append, List.drop_append_of_le_length hcursor.le]
      exact ((List.take_prefix stop stripped).drop cursor).trans (List.prefix_append _ _)
    have hsized : (stripped.take stop).drop cursor ≠ [] ∧
        ((stripped.take stop).drop cursor).length ≤ sizes.maxChars := by
      refine ⟨List.ne_nil_of_length_pos ?_, ?_⟩ <;>
      · rw [hlength]
        omega
    rw [cut, if_pos hcursor]
    dsimp only
    rw [← hstop]
    split_ifs with hend
    · have hone := Found.single (before.length + cursor, _) hplaced hsized
      rw [hlength] at hone
      rwa [show before.length + cursor + (stop - cursor) = before.length + stripped.length by
        omega] at hone
    · have hlater := ih (stripped.length - (stop - sizes.overlap)) (by omega)
        (stop - sizes.overlap) (by omega) rfl
      refine Found.cons (before.length + cursor, _) hplaced hsized hlater ?_ ?_ ?_
      · dsimp only
        omega
      · dsimp only
        rw [hlength]
        omega
      · dsimp only
        omega

/-- What is ahead: paragraphs with white space between them and in front of them. -/
def Ahead (paragraphs : List (List Char)) (ahead : List Char) : Prop :=
  ∃ gap rest, ahead = gap ++ rest ∧ Blank gap ∧
    (paragraphs = [] ∧ rest = [] ∨ Patterns.Splits Blank paragraphs rest)

/-- The next paragraph, and white space after it. -/
theorem Ahead.next {paragraph : List Char} {paragraphs : List (List Char)} {ahead : List Char}
    (h : Ahead (paragraph :: paragraphs) ahead) :
    ∃ gap rest, ahead = gap ++ (paragraph ++ rest) ∧ Blank gap ∧
      ∀ trail, Blank trail → Ahead paragraphs (trail ++ rest) := by
  obtain ⟨gap, rest, rfl, hgap, ⟨hnil, _⟩ | hsplits⟩ := h
  · simp at hnil
  · cases hsplits with
    | last _ =>
      refine ⟨gap, [], by rw [List.append_nil], hgap, fun trail htrail => ?_⟩
      exact ⟨trail, [], rfl, htrail, Or.inl ⟨rfl, rfl⟩⟩
    | cons _ hbetween hrest =>
      refine ⟨gap, _, rfl, hgap, fun trail htrail => ?_⟩
      exact ⟨trail ++ _, _, (List.append_assoc ..).symm, htrail.append hbetween, Or.inr hrest⟩

/-- Where a blank paragraph is found, the next search begins within white space. -/
theorem piecesFrom_blank (sizes : Sizes) (before gap paragraph rest : List Char)
    (paragraphs : List (List Char)) (hgap : Blank gap) (hblank : Blank paragraph) :
    ∃ skipped left, gap ++ paragraph = skipped ++ left ∧ Blank skipped ∧ Blank left ∧
      piecesFrom sizes (before ++ (gap ++ (paragraph ++ rest))) before.length
          (paragraph :: paragraphs) =
        piecesFrom sizes (before ++ (gap ++ (paragraph ++ rest)))
          (before.length + skipped.length : Nat) paragraphs := by
  obtain ⟨i, hfind, hle⟩ := Patterns.find_le paragraph gap rest
  have hboth := hgap.append hblank
  have hstrip : Text.strip paragraph = [] := Text.stripBy_eq_nil_iff.mpr hblank
  have hlength : ((gap ++ paragraph).take (i + paragraph.length)).length =
      i + paragraph.length := by
    rw [List.length_take, List.length_append]
    omega
  refine ⟨(gap ++ paragraph).take (i + paragraph.length),
    (gap ++ paragraph).drop (i + paragraph.length), (List.take_append_drop ..).symm,
    fun c hc => hboth c (List.mem_of_mem_take hc),
    fun c hc => hboth c (List.mem_of_mem_drop hc), ?_⟩
  rw [piecesFrom, if_pos hstrip, Patterns.findFrom_append, hfind, hlength]
  dsimp only [Option.map_some]
  congr 1
  push_cast
  ring

/-- The next paragraph is found where it begins, and the search goes on behind it. -/
theorem piecesFrom_stripped (sizes : Sizes) (before gap stripped after paragraph : List Char)
    (paragraphs : List (List Char)) (hgap : Blank gap) (hstrip : Text.strip paragraph = stripped)
    (hne : stripped ≠ []) :
    piecesFrom sizes (before ++ (gap ++ (stripped ++ after))) before.length
        (paragraph :: paragraphs) =
      (piecesFrom sizes (before ++ (gap ++ (stripped ++ after)))
          (before.length + gap.length + stripped.length : Nat) paragraphs).map fun later =>
        (if stripped.length ≤ sizes.maxChars then [(before.length + gap.length, stripped)]
          else cut sizes (before.length + gap.length) stripped 0) ++ later := by
  obtain ⟨c, part, rfl⟩ := List.exists_cons_of_ne_nil hne
  have hc : Lines.isSpace c = false := by
    have htrimmed := Text.trimmed_stripBy Lines.isSpace paragraph
    rw [← Text.strip, hstrip] at htrimmed
    exact htrimmed.1 c rfl
  have hnot : c ∉ gap := fun hmem => by
    rw [hgap c hmem] at hc
    cases hc
  have hfind := Patterns.find_gap hnot part after
  rw [piecesFrom]
  dsimp only
  rw [hstrip, if_neg hne, Patterns.findFrom_append, hfind]
  have hoffset : ((before.length + gap.length : Nat) : Int) + ((c :: part).length : Nat) =
      ((before.length + gap.length + (c :: part).length : Nat) : Int) :=
    (Int.natCast_add _ _).symm
  simp only [Option.map_some, Option.bind_eq_bind, Option.bind_some]
  rw [hoffset]
  cases piecesFrom sizes _ ((before.length + gap.length + (c :: part).length : Nat) : Int)
    paragraphs <;> rfl

/-- The pieces of one paragraph, wherever it is. -/
theorem found_paragraph (sizes : Sizes) (before stripped after : List Char) (hne : stripped ≠ []) :
    Found sizes.maxChars (before ++ (stripped ++ after)) before.length
      (before.length + stripped.length)
      (if stripped.length ≤ sizes.maxChars then [(before.length, stripped)]
        else cut sizes before.length stripped 0) := by
  split_ifs with hshort
  · refine Found.single (before.length, stripped) ?_ ⟨hne, hshort⟩
    rw [List.drop_left]
    exact List.prefix_append stripped after
  · exact found_cut sizes before stripped after 0 (List.length_pos_iff.mpr hne)

/-- The search never fails, and the pieces are those of the text that is ahead. -/
theorem found_piecesFrom (sizes : Sizes) (paragraphs : List (List Char))
    (before ahead : List Char) (h : Ahead paragraphs ahead) :
    ∃ pieces, piecesFrom sizes (before ++ ahead) before.length paragraphs = some pieces ∧
      Found sizes.maxChars (before ++ ahead) before.length (before ++ ahead).length pieces := by
  induction paragraphs generalizing before ahead with
  | nil =>
    obtain ⟨gap, rest, rfl, hgap, ⟨_, rfl⟩ | hsplits⟩ := h
    · refine ⟨[], rfl, ?_⟩
      have hblank := Found.blank sizes.maxChars before [] hgap
      rw [← List.length_append, List.append_nil] at hblank
      rwa [List.append_nil]
    · cases hsplits
  | cons paragraph paragraphs ih =>
    obtain ⟨gap, rest, rfl, hgap, hrest⟩ := h.next
    by_cases hnil : Text.strip paragraph = []
    · have hblank : Blank paragraph := Text.stripBy_eq_nil_iff.mp hnil
      obtain ⟨skipped, left, hboth, hskipped, hleft, heq⟩ :=
        piecesFrom_blank sizes before gap paragraph rest paragraphs hgap hblank
      have htext : before ++ (gap ++ (paragraph ++ rest)) =
          before ++ skipped ++ (left ++ rest) := by
        rw [← List.append_assoc gap, hboth]
        simp only [List.append_assoc]
      obtain ⟨pieces, hpieces, hfound⟩ := ih (before ++ skipped) (left ++ rest) (hrest left hleft)
      refine ⟨pieces, ?_, ?_⟩
      · rw [heq, htext, ← List.length_append]
        exact hpieces
      · rw [htext]
        have hgapFound := Found.blank sizes.maxChars before (left ++ rest) hskipped
        rw [← List.append_assoc, ← List.length_append] at hgapFound
        exact hgapFound.append hfound (by simp) (by simp)
    · obtain ⟨lead, trail, hparagraph, hlead, htrail⟩ := exists_strip paragraph
      generalize hstripped : Text.strip paragraph = stripped at hnil hparagraph
      subst hparagraph
      have htext : before ++ (gap ++ (lead ++ (stripped ++ trail) ++ rest)) =
          before ++ (gap ++ lead ++ (stripped ++ (trail ++ rest))) := by
        simp only [List.append_assoc]
      have hahead : before ++ (gap ++ lead ++ (stripped ++ (trail ++ rest))) =
          before ++ (gap ++ lead) ++ stripped ++ (trail ++ rest) := by
        simp only [List.append_assoc]
      obtain ⟨pieces, hpieces, hfound⟩ := ih (before ++ (gap ++ lead) ++ stripped) (trail ++ rest)
        (hrest trail htrail)
      have hone := found_paragraph sizes (before ++ (gap ++ lead)) stripped (trail ++ rest) hnil
      have hgapFound := Found.blank sizes.maxChars before (stripped ++ (trail ++ rest))
        (hgap.append hlead)
      rw [htext, piecesFrom_stripped sizes before (gap ++ lead) stripped (trail ++ rest) _ paragraphs
        (hgap.append hlead) hstripped hnil, hahead]
      have hstart : (before ++ (gap ++ lead)).length = before.length + (gap ++ lead).length :=
        List.length_append
      have hplace : (before ++ (gap ++ lead) ++ stripped).length =
          before.length + (gap ++ lead).length + stripped.length := by
        rw [List.length_append, hstart]
      rw [hplace] at hpieces hfound
      rw [hpieces]
      refine ⟨_, rfl, ?_⟩
      rw [hahead] at hgapFound
      rw [← List.append_assoc _ stripped, hstart] at hone
      have hstop : before.length + (gap ++ lead).length + stripped.length ≤
          (before ++ (gap ++ lead) ++ stripped ++ (trail ++ rest)).length := by
        rw [← hplace]
        exact (List.prefix_append _ _).length_le
      have hfirst := hone.append hfound (Nat.le_add_right _ _) hstop
      exact hgapFound.append hfirst (Nat.le_add_right _ _) ((Nat.le_add_right _ _).trans hstop)

/-! ## The chunks of a text -/

/-- The chunk of some pieces: it begins where the first of them does. -/
def chunkOf : List Piece → Piece
  | [] => (0, [])
  | piece :: pieces => (piece.1, joined ((piece :: pieces).map (·.2)))

theorem length_joined {pieces : List (List Char)} (h : pieces ≠ []) :
    (joined pieces).length + 2 = (pieces.map fun piece => piece.length + 2).sum := by
  have hjoined : ['\n', '\n'].intercalate pieces ++ ['\n', '\n'] = _ := Text.intercalate_append h
  have hjoin := congrArg List.length hjoined
  rw [List.length_append, List.length_flatMap] at hjoin
  rw [joined]
  simpa using hjoin

theorem joined_singleton (piece : List Char) : joined [piece] = piece := by
  simp [joined, List.intercalate]

/-- The pieces so far are in the chunks that are packed, `done`, or in the one that is open. -/
structure Packed (maxChars : Nat) (packing : Packing) (done : List (List Piece))
    (opened : List Piece) : Prop where
  chunks : packing.chunks = done.map chunkOf
  current : packing.current = opened.map (·.2)
  start : ∀ piece ∈ opened.head?, packing.start = piece.1
  nonempty : ∀ group ∈ done, group ≠ []
  sized : ∀ group ∈ done, (chunkOf group).2.length ≤ maxChars
  fits : opened ≠ [] → (joined packing.current).length ≤ min packing.length maxChars

namespace Packed

variable {maxChars : Nat} {packing : Packing} {done : List (List Piece)} {opened : List Piece}

theorem chunkOf_opened (h : Packed maxChars packing done opened) (hne : opened ≠ []) :
    chunkOf opened = (packing.start, joined packing.current) := by
  obtain ⟨piece, pieces, rfl⟩ := List.exists_cons_of_ne_nil hne
  rw [h.start piece rfl, h.current, chunkOf]

theorem current_eq_nil (h : Packed maxChars packing done opened) :
    packing.current = [] ↔ opened = [] := by
  rw [h.current, List.map_eq_nil_iff]

/-- The open chunk is closed. -/
theorem flush (h : Packed maxChars packing done opened) (hne : opened ≠ []) :
    Packed maxChars packing.flush (done ++ [opened]) [] where
  chunks := by
    rw [Packing.flush, List.map_append, List.map_singleton, h.chunkOf_opened hne, h.chunks]
  current := rfl
  start := by simp
  nonempty := List.forall_mem_append.mpr ⟨h.nonempty, List.forall_mem_singleton.mpr hne⟩
  sized := by
    refine List.forall_mem_append.mpr ⟨h.sized, List.forall_mem_singleton.mpr ?_⟩
    rw [h.chunkOf_opened hne]
    exact (h.fits hne).trans (min_le_right _ _)
  fits hnil := absurd rfl hnil

/-- A piece opens a chunk. -/
theorem first (h : Packed maxChars packing done []) {piece : Piece} (length : Nat)
    (hsized : piece.2.length ≤ maxChars) (hlength : piece.2.length ≤ length) :
    Packed maxChars { packing with start := piece.1, current := [piece.2], length } done
      [piece] where
  chunks := h.chunks
  current := rfl
  start := by simp
  nonempty := h.nonempty
  sized := h.sized
  fits _ := by
    dsimp only
    rw [joined_singleton]
    exact le_min hlength hsized

/-- A piece is added to the open chunk. -/
theorem push (h : Packed maxChars packing done opened) (hne : opened ≠ []) {piece : Piece}
    (hroom : packing.length + (piece.2.length + 2) ≤ maxChars) :
    Packed maxChars
      { packing with
        current := packing.current ++ [piece.2]
        length := packing.length + (piece.2.length + 2) }
      done (opened ++ [piece]) where
  chunks := h.chunks
  current := by simp [h.current]
  start := by
    rw [List.head?_append_of_ne_nil _ hne]
    exact h.start
  nonempty := h.nonempty
  sized := h.sized
  fits _ := by
    have hfits := h.fits hne
    have hcurrent : packing.current ≠ [] := by rwa [ne_eq, h.current_eq_nil]
    have hbefore := length_joined hcurrent
    have hafter := length_joined (List.append_ne_nil_of_left_ne_nil hcurrent [piece.2])
    rw [List.map_append, List.sum_append, List.map_singleton, List.sum_singleton] at hafter
    dsimp only
    omega

/-- One piece more. -/
theorem add (h : Packed maxChars packing done opened) (piece : Piece)
    (hsized : piece.2.length ≤ maxChars) :
    ∃ done' opened', Packed maxChars (packing.add maxChars piece) done' opened' ∧
      done'.flatten ++ opened' = done.flatten ++ opened ++ [piece] := by
  by_cases hnil : opened = []
  · subst hnil
    have hcurrent := h.current_eq_nil.mpr rfl
    refine ⟨done, [piece], ?_, by simp⟩
    have hfirst := h.first (packing.length + piece.2.length) hsized (Nat.le_add_left _ _)
    simpa [Packing.add, hcurrent] using hfirst
  · have hcurrent : packing.current ≠ [] := by rwa [ne_eq, h.current_eq_nil]
    by_cases hfull : maxChars < packing.length + (piece.2.length + 2)
    · refine ⟨done ++ [opened], [piece], ?_, by simp⟩
      have hfirst := (h.flush hnil).first (piece.2.length + 2) hsized (Nat.le_add_right _ _)
      simpa [Packing.add, hcurrent, hfull, Packing.flush] using hfirst
    · refine ⟨done, opened ++ [piece], ?_, by simp⟩
      have hpush := h.push hnil (not_lt.mp hfull)
      simpa [Packing.add, hcurrent, hfull] using hpush

/-- All the pieces. -/
theorem foldl (h : Packed maxChars packing done opened) (pieces : List Piece)
    (hsized : ∀ piece ∈ pieces, piece.2.length ≤ maxChars) :
    ∃ done' opened', Packed maxChars (pieces.foldl (Packing.add maxChars) packing) done' opened' ∧
      done'.flatten ++ opened' = done.flatten ++ opened ++ pieces := by
  induction pieces generalizing packing done opened with
  | nil => exact ⟨done, opened, h, by simp⟩
  | cons piece pieces ih =>
    obtain ⟨hpiece, hpieces⟩ := List.forall_mem_cons.mp hsized
    obtain ⟨done', opened', hadd, hflat⟩ := h.add piece hpiece
    obtain ⟨done'', opened'', hrest, hflat'⟩ := ih hadd hpieces
    exact ⟨done'', opened'', hrest, by rw [hflat', hflat, List.append_assoc, List.singleton_append]⟩

/-- The chunks at the end. -/
theorem finish (h : Packed maxChars packing done opened) :
    ∃ groups : List (List Piece), packing.finish = groups.map chunkOf ∧
      groups.flatten = done.flatten ++ opened ∧
      ∀ group ∈ groups, group ≠ [] ∧ (chunkOf group).2.length ≤ maxChars := by
  unfold Packing.finish
  split_ifs with hcurrent
  · obtain rfl := h.current_eq_nil.mp hcurrent
    exact ⟨done, h.chunks, by simp, fun group hgroup => ⟨h.nonempty _ hgroup, h.sized _ hgroup⟩⟩
  · have hflush := h.flush (mt h.current_eq_nil.mpr hcurrent)
    exact ⟨done ++ [opened], hflush.chunks, by simp,
      fun group hgroup => ⟨hflush.nonempty _ hgroup, hflush.sized _ hgroup⟩⟩

end Packed

theorem packed_start (maxChars : Nat) : Packed maxChars {} [] [] where
  chunks := rfl
  current := rfl
  start := by simp
  nonempty := by simp
  sized := by simp
  fits h := absurd rfl h

/-- What is promised of chunks, each of which is of the pieces of a group. -/
structure Covers (maxChars : Nat) (text : List Char) (groups : List (List Piece)) : Prop where
  nonempty : ∀ group ∈ groups, group ≠ [] ∧ (chunkOf group).2 ≠ []
  sized : ∀ group ∈ groups, (chunkOf group).2.length ≤ maxChars
  /-- The text at the start of a chunk begins with its first piece. -/
  placed : ∀ group ∈ groups, ∀ piece ∈ group.head?,
    (chunkOf group).1 = piece.1 ∧ piece.2 ≠ [] ∧ piece.2 <+: text.drop piece.1
  increasing : (groups.map chunkOf).Pairwise (·.1 < ·.1)
  covered : ∀ i c, text[i]? = some c → Lines.isSpace c = false →
    ∃ group ∈ groups, ∃ piece ∈ group,
      piece.2 <+: text.drop piece.1 ∧ piece.1 ≤ i ∧ i < piece.1 + piece.2.length

/-- Pieces in groups. -/
theorem Found.covers {maxChars : Nat} {text : List Char} {groups : List (List Piece)}
    (h : Found maxChars text 0 text.length groups.flatten)
    (hgroups : ∀ group ∈ groups, group ≠ [] ∧ (chunkOf group).2.length ≤ maxChars) :
    Covers maxChars text groups where
  nonempty group hgroup := by
    refine ⟨(hgroups group hgroup).1, ?_⟩
    obtain ⟨piece, pieces, rfl⟩ := List.exists_cons_of_ne_nil (hgroups group hgroup).1
    have hne := (h.sized piece (List.mem_flatten_of_mem hgroup List.mem_cons_self)).1
    have hjoin := length_joined (List.cons_ne_nil piece.2 (pieces.map (·.2)))
    have hpos := List.length_pos_iff.mpr hne
    rw [List.map_cons, List.sum_cons] at hjoin
    refine List.ne_nil_of_length_pos ?_
    rw [chunkOf, List.map_cons]
    dsimp only
    omega
  sized group hgroup := (hgroups group hgroup).2
  placed group hgroup piece hpiece := by
    have hmem := List.mem_flatten_of_mem hgroup (List.mem_of_head? hpiece)
    refine ⟨?_, (h.sized piece hmem).1, h.placed piece hmem⟩
    obtain ⟨first, pieces, rfl⟩ := List.exists_cons_of_ne_nil (hgroups group hgroup).1
    obtain rfl : first = piece := Option.some.inj hpiece
    rfl
  increasing := by
    refine List.pairwise_map.mpr ((List.pairwise_flatten.mp h.increasing).2.imp_of_mem ?_)
    intro group later hgroup hlater hless
    obtain ⟨first, _, rfl⟩ := List.exists_cons_of_ne_nil (hgroups group hgroup).1
    obtain ⟨second, _, rfl⟩ := List.exists_cons_of_ne_nil (hgroups later hlater).1
    exact hless first List.mem_cons_self second List.mem_cons_self
  covered i c hc hspace := by
    have hi : i < text.length := (List.getElem?_eq_some_iff.mp hc).1
    obtain ⟨piece, hpiece, hin⟩ := h.covered i c (Nat.zero_le i) hi hc hspace
    obtain ⟨group, hgroup, hmem⟩ := List.mem_flatten.mp hpiece
    exact ⟨group, hgroup, piece, hmem, h.placed piece hpiece, hin⟩

/-- **The chunks cover the document**: `chunk_text` raises for no text, none of its chunks is
    empty or too long, they begin one after the other where the text begins with their first
    piece, and every character that is not white space is in a piece of one of them. -/
theorem chunkText_covers (text : List Char) (maxChars : Int) (overlap : Option Int)
    (hmax : 1 ≤ maxChars) (hoverlap : ∀ o ∈ overlap, 0 ≤ o ∧ o < maxChars) :
    ∃ groups, chunkText text maxChars overlap = .ok (groups.map chunkOf) ∧
      Covers maxChars.toNat text groups := by
  have hchecked : 0 ≤ overlap.getD (min DEFAULT_OVERLAP_CHARS (maxChars / 8)) ∧
      overlap.getD (min DEFAULT_OVERLAP_CHARS (maxChars / 8)) < maxChars := by
    cases overlap with
    | none =>
      rw [Option.getD_none, DEFAULT_OVERLAP_CHARS]
      omega
    | some o => exact hoverlap o rfl
  have hsplit := Patterns.splits_split paragraphBreak_spec text
  obtain ⟨pieces, hpieces, hfound⟩ := found_piecesFrom
    ⟨maxChars.toNat, (overlap.getD (min DEFAULT_OVERLAP_CHARS (maxChars / 8))).toNat, by omega⟩
    (Patterns.split PARAGRAPH_BREAK.pattern text) [] text
    ⟨[], text, rfl, by simp [Blank], Or.inr hsplit⟩
  rw [List.nil_append] at hpieces hfound
  obtain ⟨done, opened, hpacked, hflat⟩ := (packed_start maxChars.toNat).foldl pieces
    fun piece hpiece => (hfound.sized piece hpiece).2
  obtain ⟨groups, hfinish, hgroups, hsized⟩ := hpacked.finish
  rw [hflat, List.flatten_nil, List.nil_append, List.nil_append] at hgroups
  refine ⟨groups, ?_, ?_⟩
  · rw [chunkText, if_neg (not_lt.mpr hmax)]
    dsimp only
    rw [dif_pos hchecked]
    rw [List.length_nil, Nat.cast_zero] at hpieces
    rw [hpieces]
    exact congrArg Except.ok hfinish
  · rw [← hgroups] at hfound
    exact hfound.covers hsized

/-- Two paragraphs, the second of which is cut into pieces. -/
theorem chunkText_covers_cut :
    ∃ groups, chunkText "ab\n \n0123456".toList 4 (some 1) = .ok (groups.map chunkOf) ∧
      Covers 4 "ab\n \n0123456".toList groups :=
  chunkText_covers _ 4 (some 1) (by decide) (by decide)

end Rag

end Slas
