/-
  Slas.Rag.Atomic

  An ingest that fails leaves the knowledge base as it was, and the three stores hold the same
  chunks, exactly when no call fails after a first change: `atomic_iff`.
-/

import Slas.Lib.Runs
import Slas.Rag.Retriever

namespace Slas

namespace Rag

/-! ## Owners -/

section Store

variable {α : Type*} {d items : List (String × α)} {ids : List String} {id docId : String}

theorem nodup_drop (h : (Dict.keys d).Nodup) : (Dict.keys (drop ids d)).Nodup :=
  (List.filter_sublist.map _).nodup h

theorem nodup_putAll (h : (Dict.keys d).Nodup) : (Dict.keys (putAll items d)).Nodup := by
  induction items generalizing d with
  | nil => exact h
  | cons item items ih => exact ih (Dict.nodup_keys_set h)

theorem drop_nil : drop [] d = d := by simp [drop]

variable [Owned α]

theorem ownerOf_isSome_iff : (ownerOf d id).isSome ↔ id ∈ Dict.keys d := by
  rw [ownerOf, Option.isSome_map]
  exact Dict.lookup_isSome_iff

theorem ownerOf_drop : ownerOf (drop ids d) id = if id ∈ ids then none else ownerOf d id := by
  induction d with
  | nil => simp [drop, ownerOf]
  | cons first d ih =>
    by_cases hfirst : first.1 ∈ ids
    · have hdrop : drop ids (first :: d) = drop ids d :=
        List.filter_cons_of_neg (by simpa using hfirst)
      rw [hdrop, ih]
      split_ifs with hid
      · rfl
      · have hne : id ≠ first.1 := fun heq => hid (heq ▸ hfirst)
        rw [ownerOf, ownerOf, Dict.lookup_cons_eq_if, if_neg hne]
    · have hdrop : drop ids (first :: d) = first :: drop ids d :=
        List.filter_cons_of_pos (by simpa using hfirst)
      rw [hdrop, ownerOf, ownerOf, Dict.lookup_cons_eq_if, Dict.lookup_cons_eq_if]
      by_cases heq : id = first.1
      · rw [if_pos heq, if_pos heq, if_neg (heq ▸ hfirst)]
      · rw [if_neg heq, if_neg heq]
        exact ih

theorem mem_idsOf (h : (Dict.keys d).Nodup) : id ∈ idsOf docId d ↔ ownerOf d id = some docId := by
  simp only [idsOf, Dict.keys, List.mem_map, List.mem_filter, decide_eq_true_eq, ownerOf,
    Option.map_eq_some_iff]
  constructor
  · rintro ⟨item, ⟨hmem, howner⟩, rfl⟩
    exact ⟨item.2, Dict.lookup_eq_of_mem h hmem, howner⟩
  · rintro ⟨a, hlookup, howner⟩
    exact ⟨(id, a), ⟨Dict.mem_of_lookup hlookup, howner⟩, rfl⟩

theorem ownerOf_putAll (h : ∀ item ∈ items, owner item.2 = docId) :
    ownerOf (putAll items d) id = if id ∈ Dict.keys items then some docId else ownerOf d id := by
  induction items generalizing d with
  | nil => simp [putAll, Dict.keys]
  | cons item items ih =>
    have hitem := h item List.mem_cons_self
    have hput : putAll (item :: items) d = putAll items (Dict.set item.1 item.2 d) := rfl
    have hcons : id ∈ Dict.keys (item :: items) ↔ id = item.1 ∨ id ∈ Dict.keys items := by
      simp [Dict.keys]
    rw [hput, ih fun i hi => h i (List.mem_cons_of_mem _ hi), ownerOf, Dict.lookup_set]
    by_cases hid : id = item.1
    · subst hid
      simp [hcons, hitem]
    · simp [hcons, hid, ownerOf]

end Store

theorem hash_not_mem {id : String} (h : isDocumentId id = true) : '#' ∉ id.toList := by
  unfold isDocumentId at h
  split at h
  · cases h
  · rename_i c cs heq
    rw [heq]
    intro hmem
    simp only [Bool.and_eq_true, List.all_eq_true] at h
    rcases List.mem_cons.mp hmem with rfl | hmem
    · exact absurd h.1 (by decide)
    · exact absurd (h.2 '#' hmem) (by decide)

/-- A chunk id names its document. -/
theorem chunkId_inj {docId docId' : String} {n n' : Nat} (h : isDocumentId docId = true)
    (h' : isDocumentId docId' = true) (heq : chunkId docId n = chunkId docId' n') :
    docId = docId' := by
  have hchars := congrArg String.toList heq
  simp only [chunkId, String.toList_append, List.append_assoc] at hchars
  have hleft : Text.partition '#' (docId.toList ++ '#' :: (toString n).toList) =
      (docId.toList, (toString n).toList) := Text.partition_append (hash_not_mem h)
  have hright : Text.partition '#' (docId'.toList ++ '#' :: (toString n').toList) =
      (docId'.toList, (toString n').toList) := Text.partition_append (hash_not_mem h')
  have hsame := congrArg (fun cs => (Text.partition '#' cs).1) hchars
  have hhash : ∀ cs : List Char, "#".toList ++ cs = '#' :: cs := fun cs => rfl
  simp only [hhash, hleft, hright] at hsame
  exact String.toList_injective hsame

/-! ## Calls -/

inductive Call (V : Type) where
  | ingest (doc : Document) (answers : Answers V)
  | remove (docId : String) (answers : Answers V)

namespace Retriever

variable {V : Type} (chunkText : String → Option (List (Nat × String)))

def perform (s : Retriever V) : Call V → Retriever V
  | .ingest doc a => (s.ingest chunkText doc a).1
  | .remove docId a => (s.remove docId a).1

/-- The stores hold the same chunks. -/
def SameIds (s : Retriever V) : Prop :=
  ∀ id, (id ∈ Dict.keys s.vectors ↔ id ∈ Dict.keys s.chunks) ∧
    (id ∈ Dict.keys s.text ↔ id ∈ Dict.keys s.chunks)

/-- The documents, their chunks and all that is found are as they were. -/
def Unchanged (s after : Retriever V) : Prop :=
  after.documents = s.documents ∧ after.chunks = s.chunks ∧
    ∀ (S : Type) (R : Ranking V S) query limit candidates,
      after.search R query limit candidates = s.search R query limit candidates

/-- An ingest that fails changes nothing, and the stores hold the same chunks. -/
def Atomic (s : Retriever V) (c : Call V) : Prop :=
  (∀ doc a, c = .ingest doc a → (s.ingest chunkText doc a).2 = none →
    s.Unchanged (s.perform chunkText c)) ∧ (s.perform chunkText c).SameIds

/-- A removal fails, if at all, before a passage is deleted. -/
def RemovesClean (docId : String) (a : Answers V) (s : Retriever V) : Prop :=
  match a.deleteVectors, a.deleteText with
  | .raised k, _ => (idsOf docId s.vectors).take k = []
  | .done, .raised _ => idsOf docId s.vectors = []
  | .done, .done => True

/-- A new version fails, if at all, before a passage is written. -/
def AddsClean (pieces : List (Nat × String)) (a : Answers V) : Prop :=
  ∀ vectors, a.embed = some vectors → pieces.length = vectors.length →
    match a.upsert, a.index with
    | .raised k, _ => pieces.take k = []
    | .done, .raised _ => pieces = []
    | .done, .done => True

/-- A new version does not fail. -/
def Adds (doc : Document) (a : Answers V) : Prop :=
  ∃ pieces vectors, chunkText doc.text = some pieces ∧ a.embed = some vectors ∧
    pieces.length = vectors.length ∧ a.upsert = .done ∧ a.index = .done

/-- No call fails after a first change. -/
def Clean (s : Retriever V) : Call V → Prop
  | .remove docId a => RemovesClean docId a s
  | .ingest doc a =>
    if s.known doc then
      RemovesClean doc.id a s ∧ (a.deleteVectors = .done → a.deleteText = .done → Adds chunkText doc a)
    else ∀ pieces, chunkText doc.text = some pieces → AddsClean pieces a

/-- Every chunk of a store belongs to the same document in the others, and its id is of that
    document, which is known. -/
structure Consistent (s : Retriever V) : Prop where
  vectors_nodup : (Dict.keys s.vectors).Nodup
  text_nodup : (Dict.keys s.text).Nodup
  chunks_nodup : (Dict.keys s.chunks).Nodup
  vectors : ∀ id, ownerOf s.vectors id = ownerOf s.chunks id
  text : ∀ id, ownerOf s.text id = ownerOf s.chunks id
  owned : ∀ id docId, ownerOf s.chunks id = some docId →
    docId ∈ Dict.keys s.documents ∧ ∃ n, id = chunkId docId n
  valid : ∀ docId ∈ Dict.keys s.documents, isDocumentId docId = true

variable {chunkText} {s : Retriever V} {a : Answers V} {docId : String} {doc : Document}

theorem Consistent.sameIds (h : Consistent s) : SameIds s := by
  intro id
  rw [← ownerOf_isSome_iff, ← ownerOf_isSome_iff, ← ownerOf_isSome_iff, h.vectors, h.text]
  exact ⟨Iff.rfl, Iff.rfl⟩

theorem Unchanged.refl : s.Unchanged s := ⟨rfl, rfl, fun _ _ _ _ _ => rfl⟩

/-! ## Removal -/

/-- Without the chunks of a document, and without it. -/
theorem Consistent.removed (h : Consistent s) (docId : String) :
    Consistent ⟨drop (idsOf docId s.vectors) s.vectors, drop (idsOf docId s.text) s.text,
      drop (idsOf docId s.chunks) s.chunks, Dict.pop docId s.documents⟩ := by
  have hvectors : ∀ id, id ∈ idsOf docId s.vectors ↔ id ∈ idsOf docId s.chunks := fun id => by
    rw [mem_idsOf h.vectors_nodup, mem_idsOf h.chunks_nodup, h.vectors]
  have htext : ∀ id, id ∈ idsOf docId s.text ↔ id ∈ idsOf docId s.chunks := fun id => by
    rw [mem_idsOf h.text_nodup, mem_idsOf h.chunks_nodup, h.text]
  refine ⟨nodup_drop h.vectors_nodup, nodup_drop h.text_nodup, nodup_drop h.chunks_nodup,
    fun id => ?_, fun id => ?_, fun id owner howner => ?_, fun key hkey => ?_⟩
  · rw [ownerOf_drop, ownerOf_drop, h.vectors, if_congr (hvectors id) rfl rfl]
  · rw [ownerOf_drop, ownerOf_drop, h.text, if_congr (htext id) rfl rfl]
  · rw [ownerOf_drop] at howner
    split_ifs at howner with hid
    obtain ⟨hknown, hname⟩ := h.owned id owner howner
    rw [mem_idsOf h.chunks_nodup, howner] at hid
    exact ⟨Dict.mem_keys_pop.mpr ⟨fun heq => hid (congrArg some heq), hknown⟩, hname⟩
  · exact h.valid key (Dict.mem_keys_pop.mp hkey).2

/-- A passage that only one of the stores has lost. -/
theorem not_sameIds_of_dropped (h : Consistent s) {ids : List String} {text : List (String × Chunk)}
    (hsub : ids ⊆ idsOf docId s.vectors) (hne : ids ≠ []) :
    ¬ SameIds { s with vectors := drop ids s.vectors, text } := by
  obtain ⟨id, hid⟩ := List.exists_mem_of_ne_nil ids hne
  intro hsame
  have hchunk : id ∈ Dict.keys s.chunks := by
    rw [← ownerOf_isSome_iff, ← h.vectors, (mem_idsOf h.vectors_nodup).mp (hsub hid)]
    rfl
  have hgone := ownerOf_isSome_iff.mpr ((hsame id).1.mpr hchunk)
  rw [ownerOf_drop, if_pos hid] at hgone
  cases hgone

/-- How a removal ends: with the document gone, clean with nothing changed, or neither. -/
theorem remove_cases (docId : String) (a : Answers V) (h : Consistent s) :
    (a.deleteVectors = .done ∧ a.deleteText = .done ∧ s.remove docId a =
      (⟨drop (idsOf docId s.vectors) s.vectors, drop (idsOf docId s.text) s.text,
        drop (idsOf docId s.chunks) s.chunks, Dict.pop docId s.documents⟩, true)) ∨
    (¬ (a.deleteVectors = .done ∧ a.deleteText = .done) ∧ (s.remove docId a).2 = false ∧
      (RemovesClean docId a s → (s.remove docId a).1 = s) ∧
      (¬ RemovesClean docId a s → ¬ SameIds (s.remove docId a).1)) := by
  cases hvectors : a.deleteVectors with
  | raised k =>
    have hresult : s.remove docId a =
        ({ s with vectors := drop ((idsOf docId s.vectors).take k) s.vectors }, false) := by
      simp only [remove, deleteDocument, hvectors]
    have hclean : RemovesClean docId a s ↔ (idsOf docId s.vectors).take k = [] := by
      rw [RemovesClean, hvectors]
    rw [hresult, hclean]
    refine Or.inr ⟨(fun hdone => nomatch hdone.1), rfl, fun hnil => ?_, fun hne => ?_⟩
    · rw [hnil, drop_nil]
    · exact not_sameIds_of_dropped h (List.take_subset _ _) hne
  | done =>
    cases htext : a.deleteText with
    | done =>
      refine Or.inl ⟨rfl, rfl, ?_⟩
      simp only [remove, deleteDocument, hvectors, htext]
    | raised k =>
      have hresult : s.remove docId a =
          ({ s with
             vectors := drop (idsOf docId s.vectors) s.vectors
             text := drop ((idsOf docId s.text).take k) s.text }, false) := by
        simp only [remove, deleteDocument, hvectors, htext]
      have hclean : RemovesClean docId a s ↔ idsOf docId s.vectors = [] := by
        rw [RemovesClean, hvectors, htext]
      rw [hresult, hclean]
      refine Or.inr ⟨(fun hdone => nomatch hdone.2), rfl, fun hnil => ?_, fun hne => ?_⟩
      · have htextnil : idsOf docId s.text = [] := by
          refine List.eq_nil_iff_forall_not_mem.mpr fun id hid => ?_
          rw [mem_idsOf h.text_nodup, h.text, ← h.vectors, ← mem_idsOf h.vectors_nodup, hnil] at hid
          cases hid
        rw [hnil, htextnil, List.take_nil, drop_nil, drop_nil]
      · exact not_sameIds_of_dropped h (fun _ hid => hid) hne

/-! ## A new version -/

variable {pieces : List (Nat × String)} {vectors : List V} {replaced : Bool}

theorem mem_chunkDocument {c : Chunk} (h : c ∈ chunkDocument doc pieces) :
    c.docId = doc.id ∧ c.id = chunkId doc.id c.n := by
  obtain ⟨piece, -, rfl⟩ := List.mem_map.mp h
  exact ⟨rfl, rfl⟩

theorem length_chunkDocument : (chunkDocument doc pieces).length = pieces.length := by
  simp [chunkDocument]

theorem keys_keyed {chunks : List Chunk} : Dict.keys (keyed chunks) = chunks.map (·.id) := by
  simp [Dict.keys, keyed, Function.comp_def]

theorem keys_embedded {chunks : List Chunk} (h : chunks.length = vectors.length) :
    Dict.keys (embedded chunks vectors) = chunks.map (·.id) := by
  have hzip : (chunks.zip vectors).map Prod.fst = chunks := List.map_fst_zip h.le
  calc Dict.keys (embedded chunks vectors) = ((chunks.zip vectors).map Prod.fst).map (·.id) := by
        simp [Dict.keys, embedded, Function.comp_def]
    _ = chunks.map (·.id) := by rw [hzip]

theorem owner_keyed {item : String × Chunk} (h : item ∈ keyed (chunkDocument doc pieces)) :
    owner item.2 = doc.id ∧ ∃ n, item.1 = chunkId doc.id n := by
  obtain ⟨c, hc, rfl⟩ := List.mem_map.mp h
  exact ⟨(mem_chunkDocument hc).1, _, (mem_chunkDocument hc).2⟩

theorem owner_embedded {item : String × Embedded V}
    (h : item ∈ embedded (chunkDocument doc pieces) vectors) :
    owner item.2 = doc.id ∧ ∃ n, item.1 = chunkId doc.id n := by
  obtain ⟨p, hp, rfl⟩ := List.mem_map.mp h
  have hc := mem_chunkDocument (List.of_mem_zip hp).1
  exact ⟨hc.1, _, hc.2⟩

/-- With the chunks of a document in each store, and with it. -/
theorem Consistent.added (h : Consistent s) (hlength : pieces.length = vectors.length) :
    Consistent ⟨putAll (embedded (chunkDocument doc pieces) vectors) s.vectors,
      putAll (keyed (chunkDocument doc pieces)) s.text,
      putAll (keyed (chunkDocument doc pieces)) s.chunks,
      Dict.set doc.id doc s.documents⟩ := by
  have hkeyed : ∀ (d : List (String × Chunk)) id,
      ownerOf (putAll (keyed (chunkDocument doc pieces)) d) id =
        if id ∈ (chunkDocument doc pieces).map (·.id) then some doc.id else ownerOf d id := by
    intro d id
    rw [ownerOf_putAll fun item hitem => (owner_keyed hitem).1, keys_keyed]
  have hembedded : ∀ id, ownerOf (putAll (embedded (chunkDocument doc pieces) vectors) s.vectors) id =
      if id ∈ (chunkDocument doc pieces).map (·.id) then some doc.id else ownerOf s.vectors id := by
    intro id
    rw [ownerOf_putAll fun item hitem => (owner_embedded hitem).1,
      keys_embedded (length_chunkDocument.trans hlength)]
  refine ⟨nodup_putAll h.vectors_nodup, nodup_putAll h.text_nodup, nodup_putAll h.chunks_nodup,
    fun id => ?_, fun id => ?_, fun id docId howner => ?_, fun key hkey => ?_⟩
  · rw [hembedded, hkeyed, h.vectors]
  · rw [hkeyed, hkeyed, h.text]
  · rw [hkeyed] at howner
    split_ifs at howner with hid
    · obtain rfl := Option.some.inj howner
      obtain ⟨c, hc, rfl⟩ := List.mem_map.mp hid
      exact ⟨Dict.mem_keys_set.mpr (Or.inl rfl), _, (mem_chunkDocument hc).2⟩
    · obtain ⟨hknown, hname⟩ := h.owned id docId howner
      exact ⟨Dict.mem_keys_set.mpr (Or.inr hknown), hname⟩
  · rcases Dict.mem_keys_set.mp hkey with rfl | hkey
    · exact doc.valid
    · exact h.valid key hkey

/-- A passage that only one of the stores has got. -/
theorem not_sameIds_of_put (h : Consistent s) (hnew : doc.id ∉ Dict.keys s.documents)
    {items : List (String × Embedded V)} {text : List (String × Chunk)}
    (hsub : items ⊆ embedded (chunkDocument doc pieces) vectors) (hne : items ≠ []) :
    ¬ SameIds { s with vectors := putAll items s.vectors, text } := by
  obtain ⟨item, hitem⟩ := List.exists_mem_of_ne_nil items hne
  intro hsame
  have hkey : item.1 ∈ Dict.keys items := List.mem_map_of_mem hitem
  have hput : item.1 ∈ Dict.keys (putAll items s.vectors) := by
    rw [← ownerOf_isSome_iff, ownerOf_putAll fun i hi => (owner_embedded (hsub hi)).1, if_pos hkey]
    rfl
  obtain ⟨docId, howner⟩ :=
    Option.isSome_iff_exists.mp (ownerOf_isSome_iff.mpr ((hsame item.1).1.mp hput))
  obtain ⟨hknown, n, hn⟩ := h.owned _ _ howner
  obtain ⟨-, m, hm⟩ := owner_embedded (hsub hitem)
  have hdoc : docId = doc.id := chunkId_inj (h.valid _ hknown) doc.valid (hn.symm.trans hm)
  exact hnew (hdoc ▸ hknown)

theorem putAll_nil {α : Type*} {d : List (String × α)} : putAll [] d = d := rfl

/-- The embedder and the indexes take the pieces. -/
def Taken (pieces : List (Nat × String)) (a : Answers V) : Prop :=
  ∃ vectors, a.embed = some vectors ∧ pieces.length = vectors.length ∧ a.upsert = .done ∧
    a.index = .done

/-- How a new version of an unknown document ends: with the document there, clean with nothing
    changed, or neither. -/
theorem add_cases (pieces : List (Nat × String)) (a : Answers V) (replaced : Bool)
    (h : Consistent s) (hnew : doc.id ∉ Dict.keys s.documents) :
    (Taken pieces a ∧ (s.add doc (chunkDocument doc pieces) replaced a).2 ≠ none ∧
      Consistent (s.add doc (chunkDocument doc pieces) replaced a).1) ∨
    (¬ Taken pieces a ∧ (s.add doc (chunkDocument doc pieces) replaced a).2 = none ∧
      (s.add doc (chunkDocument doc pieces) replaced a).1.documents = s.documents ∧
      (AddsClean pieces a → (s.add doc (chunkDocument doc pieces) replaced a).1 = s) ∧
      (¬ AddsClean pieces a →
        ¬ SameIds (s.add doc (chunkDocument doc pieces) replaced a).1)) := by
  cases hembed : a.embed with
  | none =>
    have hresult : s.add doc (chunkDocument doc pieces) replaced a = (s, none) := by
      simp only [add, hembed]
    rw [hresult]
    refine Or.inr ⟨?_, rfl, rfl, fun _ => rfl, fun hnot => absurd ?_ hnot⟩
    · rintro ⟨vectors, hsome, -⟩
      rw [hembed] at hsome
      cases hsome
    · intro vectors hsome
      rw [hembed] at hsome
      cases hsome
  | some vectors =>
    by_cases hlength : pieces.length = vectors.length
    swap
    · have hresult : s.add doc (chunkDocument doc pieces) replaced a = (s, none) := by
        simp only [add, hembed, length_chunkDocument, if_pos hlength]
      rw [hresult]
      refine Or.inr ⟨?_, rfl, rfl, fun _ => rfl, fun hnot => absurd ?_ hnot⟩
      · rintro ⟨vectors', hsome, hsame, -⟩
        rw [hembed] at hsome
        exact hlength (Option.some.inj hsome ▸ hsame)
      · intro vectors' hsome hsame
        rw [hembed] at hsome
        exact absurd (Option.some.inj hsome ▸ hsame) hlength
    have hitems : (embedded (chunkDocument doc pieces) vectors).length = pieces.length := by
      simp [embedded, length_chunkDocument, hlength]
    have hcleans : AddsClean pieces a ↔
        match a.upsert, a.index with
        | .raised k, _ => pieces.take k = []
        | .done, .raised _ => pieces = []
        | .done, .done => True := by
      constructor
      · exact fun hclean => hclean vectors hembed hlength
      · intro hclean vectors' _ _
        exact hclean
    cases hupsert : a.upsert with
    | raised k =>
      have hresult : s.add doc (chunkDocument doc pieces) replaced a =
          ({ s with
             vectors := putAll ((embedded (chunkDocument doc pieces) vectors).take k) s.vectors },
            none) := by
        simp only [add, hembed, length_chunkDocument, if_neg (not_not.mpr hlength), upsert, hupsert]
      have hnil : pieces.take k = [] ↔
          (embedded (chunkDocument doc pieces) vectors).take k = [] := by
        rw [← List.length_eq_zero_iff, ← List.length_eq_zero_iff, List.length_take,
          List.length_take, hitems]
      rw [hresult, hcleans, hupsert]
      refine Or.inr ⟨?_, rfl, rfl, fun hclean => ?_, fun hnot => ?_⟩
      · rintro ⟨-, -, -, hdone, -⟩
        rw [hupsert] at hdone
        cases hdone
      · dsimp only at hclean
        rw [hnil.mp hclean, putAll_nil]
      · exact not_sameIds_of_put h hnew (List.take_subset _ _) (mt hnil.mpr hnot)
    | done =>
      cases hindex : a.index with
      | raised k =>
        have hresult : s.add doc (chunkDocument doc pieces) replaced a =
            ({ s with
               vectors := putAll (embedded (chunkDocument doc pieces) vectors) s.vectors
               text := putAll ((keyed (chunkDocument doc pieces)).take k) s.text }, none) := by
          simp only [add, hembed, length_chunkDocument, if_neg (not_not.mpr hlength), upsert, hupsert,
            hindex]
        have hnil : pieces = [] ↔ embedded (chunkDocument doc pieces) vectors = [] := by
          rw [← List.length_eq_zero_iff, ← List.length_eq_zero_iff, hitems]
        rw [hresult, hcleans, hupsert, hindex]
        refine Or.inr ⟨?_, rfl, rfl, fun hclean => ?_, fun hnot => ?_⟩
        · rintro ⟨-, -, -, -, hdone⟩
          rw [hindex] at hdone
          cases hdone
        · dsimp only at hclean
          have hkeyed : keyed (chunkDocument doc pieces) = [] := by rw [hclean]; rfl
          rw [hnil.mp hclean, hkeyed, List.take_nil, putAll_nil, putAll_nil]
        · exact not_sameIds_of_put h hnew (fun _ hitem => hitem) (mt hnil.mpr hnot)
      | done =>
        have hresult : s.add doc (chunkDocument doc pieces) replaced a =
            (⟨putAll (embedded (chunkDocument doc pieces) vectors) s.vectors,
              putAll (keyed (chunkDocument doc pieces)) s.text,
              putAll (keyed (chunkDocument doc pieces)) s.chunks,
              Dict.set doc.id doc s.documents⟩,
              some ⟨doc.id, doc.title, doc.collection, (chunkDocument doc pieces).length,
                replaced⟩) := by
          simp only [add, hembed, length_chunkDocument, if_neg (not_not.mpr hlength), upsert, hupsert,
            hindex]
        rw [hresult]
        exact Or.inl ⟨⟨vectors, hembed, hlength, hupsert, hindex⟩, nofun, h.added hlength⟩

/-! ## One call, and every run -/

theorem atomic_of_unchanged {c : Call V} (h : Consistent s) (hsame : s.perform chunkText c = s) :
    Atomic chunkText s c := by
  unfold Atomic
  rw [hsame]
  exact ⟨fun _ _ _ _ => Unchanged.refl, h.sameIds⟩

theorem atomic_of_done {c : Call V} (hdone : ∀ doc a, c = .ingest doc a →
    (s.ingest chunkText doc a).2 ≠ none) (h : Consistent (s.perform chunkText c)) :
    Atomic chunkText s c :=
  ⟨fun doc a hc hnone => absurd hnone (hdone doc a hc), h.sameIds⟩

theorem remove_step (h : Consistent s) :
    (Atomic chunkText s (.remove docId a) ↔ Clean chunkText s (.remove docId a)) ∧
      (Clean chunkText s (.remove docId a) →
        Consistent (s.perform chunkText (.remove docId a))) := by
  rcases remove_cases docId a h with ⟨hv, ht, hgone⟩ | ⟨-, -, hclean, hnot⟩
  · have hconsistent : Consistent (s.perform chunkText (.remove docId a)) := by
      rw [perform, hgone]
      exact h.removed docId
    have hcleans : Clean chunkText s (.remove docId a) := by
      rw [Clean, RemovesClean, hv, ht]
      exact trivial
    exact ⟨iff_of_true (atomic_of_done (fun _ _ hc => nomatch hc) hconsistent) hcleans,
      fun _ => hconsistent⟩
  · refine ⟨⟨fun hatomic => ?_, fun hc => atomic_of_unchanged h (hclean hc)⟩, fun hc => ?_⟩
    · by_contra hc
      exact hnot hc hatomic.2
    · rw [perform, hclean hc]
      exact h

/-- The document is new, or its older version is gone. -/
theorem ingest_unknown (hknown : s.known doc = false) :
    s.ingest chunkText doc a =
      match chunkText doc.text with
      | none => (s, none)
      | some pieces => s.add doc (chunkDocument doc pieces) false a := by
  cases hpieces : chunkText doc.text <;> simp [ingest, hknown, hpieces]

theorem ingest_unknown_step (h : Consistent s) (hknown : s.known doc = false) :
    (Atomic chunkText s (.ingest doc a) ↔ Clean chunkText s (.ingest doc a)) ∧
      (Clean chunkText s (.ingest doc a) →
        Consistent (s.perform chunkText (.ingest doc a))) := by
  have hnew : doc.id ∉ Dict.keys s.documents := by
    rw [← Dict.lookup_isSome_iff]
    exact Bool.eq_false_iff.mp hknown
  have hclean : Clean chunkText s (.ingest doc a) ↔
      ∀ pieces, chunkText doc.text = some pieces → AddsClean pieces a := by
    rw [Clean, if_neg (Bool.eq_false_iff.mp hknown)]
  cases hpieces : chunkText doc.text with
  | none =>
    have hsame : s.perform chunkText (.ingest doc a) = s := by
      rw [perform, ingest_unknown hknown, hpieces]
    refine ⟨iff_of_true (atomic_of_unchanged h hsame) (hclean.mpr fun pieces hsome => ?_), fun _ => ?_⟩
    · rw [hpieces] at hsome
      cases hsome
    · rw [hsame]
      exact h
  | some pieces =>
    have hingest : s.ingest chunkText doc a = s.add doc (chunkDocument doc pieces) false a := by
      rw [ingest_unknown hknown, hpieces]
    have hperform : s.perform chunkText (.ingest doc a) =
        (s.add doc (chunkDocument doc pieces) false a).1 := by
      rw [perform, hingest]
    have hcleans : Clean chunkText s (.ingest doc a) ↔ AddsClean pieces a := by
      rw [hclean]
      exact ⟨fun hall => hall pieces hpieces, fun hone pieces' hsome =>
        Option.some.inj (hpieces.symm.trans hsome) ▸ hone⟩
    rcases add_cases pieces a false h hnew with
      ⟨⟨vectors, hembed, hlength, hupsert, hindex⟩, hdone, hconsistent⟩ | ⟨-, -, -, hsame, hnot⟩
    · have hatomic : Atomic chunkText s (.ingest doc a) := by
        refine atomic_of_done (fun doc' a' hc => ?_) (hperform ▸ hconsistent)
        cases hc
        rwa [hingest]
      have hadds : AddsClean pieces a := by
        intro vectors' _ _
        rw [hupsert, hindex]
        exact trivial
      exact ⟨iff_of_true hatomic (hcleans.mpr hadds), fun _ => hperform ▸ hconsistent⟩
    · refine ⟨⟨fun hatomic => ?_, fun hc => ?_⟩, fun hc => ?_⟩
      · by_contra hc
        refine hnot (mt hcleans.mpr hc) ?_
        rw [← hperform]
        exact hatomic.2
      · exact atomic_of_unchanged h (hperform.trans (hsame (hcleans.mp hc)))
      · rw [hperform, hsame (hcleans.mp hc)]
        exact h

/-- Once the older version is gone, only an ingest that does not fail keeps the documents. -/
theorem ingest_known_step (h : Consistent s) (hknown : s.known doc = true) :
    (Atomic chunkText s (.ingest doc a) ↔ Clean chunkText s (.ingest doc a)) ∧
      (Clean chunkText s (.ingest doc a) →
        Consistent (s.perform chunkText (.ingest doc a))) := by
  have hclean : Clean chunkText s (.ingest doc a) ↔ RemovesClean doc.id a s ∧
      (a.deleteVectors = .done → a.deleteText = .done → Adds chunkText doc a) := by
    rw [Clean, if_pos hknown]
  have hkey : doc.id ∈ Dict.keys s.documents := Dict.lookup_isSome_iff.mp hknown
  rcases remove_cases doc.id a h with ⟨hv, ht, hgone⟩ | ⟨hends, hfails, hsame, hnot⟩
  · have hremoved := h.removed doc.id
    set removed : Retriever V := ⟨drop (idsOf doc.id s.vectors) s.vectors,
      drop (idsOf doc.id s.text) s.text, drop (idsOf doc.id s.chunks) s.chunks,
      Dict.pop doc.id s.documents⟩ with hset
    have hnew : doc.id ∉ Dict.keys removed.documents := fun hmem => (Dict.mem_keys_pop.mp hmem).1 rfl
    have hingest : s.ingest chunkText doc a =
        match chunkText doc.text with
        | none => (removed, none)
        | some pieces => removed.add doc (chunkDocument doc pieces) true a := by
      cases hpieces : chunkText doc.text <;> simp [ingest, hknown, hgone, hpieces]
    -- an ingest that fails now has lost the document
    have hlost : (s.ingest chunkText doc a).2 = none →
        (s.ingest chunkText doc a).1.documents = removed.documents →
        ¬ Atomic chunkText s (.ingest doc a) := by
      intro hnone hdocuments hatomic
      have hback := (hatomic.1 doc a rfl hnone).1
      rw [perform, hdocuments] at hback
      exact hnew (hback ▸ hkey)
    have hcleans : Clean chunkText s (.ingest doc a) ↔ Adds chunkText doc a := by
      rw [hclean, RemovesClean, hv, ht]
      simp
    cases hpieces : chunkText doc.text with
    | none =>
      rw [hpieces] at hingest
      have hno : ¬ Clean chunkText s (.ingest doc a) := by
        rw [hcleans]
        rintro ⟨pieces, -, hsome, -⟩
        rw [hpieces] at hsome
        cases hsome
      have hnatomic := hlost (by rw [hingest]) (by rw [hingest])
      exact ⟨iff_of_false hnatomic hno, fun hc => absurd hc hno⟩
    | some pieces =>
      rw [hpieces] at hingest
      dsimp only at hingest
      have hadds : Adds chunkText doc a ↔ Taken pieces a := by
        constructor
        · rintro ⟨pieces', vectors, hsome, htaken⟩
          obtain rfl := Option.some.inj (hpieces.symm.trans hsome)
          exact ⟨vectors, htaken⟩
        · rintro ⟨vectors, htaken⟩
          exact ⟨pieces, vectors, hpieces, htaken⟩
      rcases add_cases pieces a true hremoved hnew with
        ⟨htaken, hdone, hconsistent⟩ | ⟨htaken, hnone, hdocuments, -, -⟩
      · have hperform : Consistent (s.perform chunkText (.ingest doc a)) := by
          rw [perform, hingest]
          exact hconsistent
        have hatomic : Atomic chunkText s (.ingest doc a) := by
          refine atomic_of_done (fun doc' a' hc => ?_) hperform
          cases hc
          rwa [hingest]
        exact ⟨iff_of_true hatomic (hcleans.mpr (hadds.mpr htaken)), fun _ => hperform⟩
      · have hno : ¬ Clean chunkText s (.ingest doc a) := fun hc =>
          htaken (hadds.mp (hcleans.mp hc))
        have hnatomic := hlost (by rw [hingest, hnone]) (by rw [hingest, hdocuments])
        exact ⟨iff_of_false hnatomic hno, fun hc => absurd hc hno⟩
  · have hperform : s.perform chunkText (.ingest doc a) = (s.remove doc.id a).1 := by
      have hpair : s.remove doc.id a = ((s.remove doc.id a).1, false) := by rw [← hfails]
      rw [perform]
      simp only [ingest, hknown, if_true]
      rw [hpair]
    have hcleans : Clean chunkText s (.ingest doc a) ↔ RemovesClean doc.id a s := by
      rw [hclean]
      exact ⟨And.left, fun hc => ⟨hc, fun hv ht => absurd ⟨hv, ht⟩ hends⟩⟩
    refine ⟨⟨fun hatomic => ?_, fun hc => ?_⟩, fun hc => ?_⟩
    · by_contra hc
      refine hnot (mt hcleans.mpr hc) ?_
      rw [← hperform]
      exact hatomic.2
    · exact atomic_of_unchanged h (hperform.trans (hsame (hcleans.mp hc)))
    · rw [hperform, hsame (hcleans.mp hc)]
      exact h

theorem call_step (h : Consistent s) (c : Call V) :
    (Atomic chunkText s c ↔ Clean chunkText s c) ∧
      (Clean chunkText s c → Consistent (s.perform chunkText c)) := by
  cases c with
  | remove docId a => exact remove_step h
  | ingest doc a =>
    cases hknown : s.known doc with
    | false => exact ingest_unknown_step h hknown
    | true => exact ingest_known_step h hknown

/-- **Ingest is atomic** in a run from an empty knowledge base exactly when no call of it fails
    after a first change. -/
theorem atomic_iff (chunkText : String → Option (List (Nat × String))) (calls : List (Call V)) :
    Runs.Meets (perform chunkText) (Atomic chunkText) {} calls ↔
      Runs.Meets (perform chunkText) (Clean chunkText) {} calls := by
  refine Runs.meets_congr (I := Consistent) (fun s c h => (call_step h c).2)
    (fun s c h => (call_step h c).1) ?_
  exact ⟨List.nodup_nil, List.nodup_nil, List.nodup_nil, fun _ => rfl, fun _ => rfl,
    (fun _ _ h => nomatch h), fun _ h => nomatch h⟩

end Retriever

/-! ## A version that is lost -/

/-- One piece: the text. -/
def whole (text : String) : Option (List (Nat × String)) := some [(0, text)]

def datasheet (text : String) : Document where
  id := "psu-datasheet"
  title := "PSU datasheet"
  collection := "datasheets"
  text := text
  valid := by decide

/-- The second version cannot be embedded, and the first one is gone. -/
theorem version_lost :
    ¬ Runs.Meets (Retriever.perform whole) (Retriever.Atomic whole) ({} : Retriever Nat)
      [.ingest (datasheet "230 V") { embed := some [1] },
        .ingest (datasheet "240 V") { embed := none }] := by
  intro h
  obtain ⟨hunchanged, -⟩ := (Runs.meets_cons.mp (Runs.meets_cons.mp h).2).1
  have hlost := (hunchanged _ _ rfl (by decide +kernel)).1
  have hcounts := congrArg List.length hlost
  exact absurd hcounts (by decide +kernel)

end Rag

end Slas
