/-
  Slas.Rag.Retriever

  The knowledge base (`slas_rag.retrieval`) over its three stores: the vectors, the words and the
  table of chunks.  A document is ingested in place of an older version of it.

  A call of an index may raise after some of its chunks, and the embedder may raise: how they
  answer is part of a call.  How a text is cut into pieces, and how the indexes, the fusion and the
  reranker rank, are parameters.
-/

import Mathlib.Data.List.Enum
import Slas.Lib.Dict
import Slas.Lib.Text

namespace Slas

namespace Rag

/-! ## Documents and chunks -/

/-- `^[a-z0-9][a-z0-9._-]*$` -/
def isDocumentId (id : String) : Bool :=
  match id.toList with
  | [] => false
  | c :: cs => (c.isLower || c.isDigit) &&
      cs.all fun c => c.isLower || c.isDigit || c = '.' || c = '_' || c = '-'

structure Document where
  id : String
  title : String
  collection : String
  text : String
  source : String := ""
  valid : isDocumentId id = true

structure Chunk where
  id : String
  docId : String
  n : Nat
  title : String
  collection : String
  text : String
  start : Nat
  deriving DecidableEq

def chunkId (docId : String) (n : Nat) : String := docId ++ "#" ++ toString n

/-- `chunk_document`, of the pieces of its text. -/
def chunkDocument (doc : Document) (pieces : List (Nat × String)) : List Chunk :=
  (pieces.zipIdx 1).map fun piece =>
    { id := chunkId doc.id piece.2, docId := doc.id, n := piece.2, title := doc.title,
      collection := doc.collection, text := piece.1.2, start := piece.1.1 }

structure IngestReport where
  docId : String
  title : String
  collection : String
  chunks : Nat
  replaced : Bool
  deriving DecidableEq

/-! ## Stores of what belongs to a document -/

/-- A store by chunk id, of what has an owner: a document. -/
class Owned (α : Type*) where
  owner : α → String

export Owned (owner)

section Store

variable {α : Type*} [Owned α]

/-- The document that an id belongs to. -/
def ownerOf (d : List (String × α)) (id : String) : Option String := (d.lookup id).map owner

/-- The ids of a document. -/
def idsOf (docId : String) (d : List (String × α)) : List String :=
  Dict.keys (d.filter fun item => owner item.2 = docId)

def drop (ids : List String) (d : List (String × α)) : List (String × α) :=
  d.filter fun item => item.1 ∉ ids

def putAll (items d : List (String × α)) : List (String × α) :=
  items.foldl (fun d item => Dict.set item.1 item.2 d) d

end Store

/-- How a call of an index ends: it raises after some chunks. -/
inductive IndexEnd where
  | done
  | raised (after : Nat)
  deriving DecidableEq

/-- What the index has come to, and whether the call has returned. -/
abbrev Indexed (α : Type*) := List (String × α) × Bool

section Store

variable {α : Type*} [Owned α]

/-- `delete_document` of an index. -/
def deleteDocument (docId : String) (how : IndexEnd) (d : List (String × α)) : Indexed α :=
  match how with
  | .done => (drop (idsOf docId d) d, true)
  | .raised k => (drop ((idsOf docId d).take k) d, false)

/-- `upsert`, or `index`. -/
def upsert (items : List (String × α)) (how : IndexEnd) (d : List (String × α)) : Indexed α :=
  match how with
  | .done => (putAll items d, true)
  | .raised k => (putAll (items.take k) d, false)

end Store

/-! ## The retriever -/

/-- What the vector index keeps of a chunk. -/
structure Embedded (V : Type*) where
  vector : V
  docId : String

instance {V : Type*} : Owned (Embedded V) := ⟨Embedded.docId⟩

instance : Owned Chunk := ⟨Chunk.docId⟩

/-- `HybridRetriever` and its indexes. -/
structure Retriever (V : Type*) where
  vectors : List (String × Embedded V) := []
  text : List (String × Chunk) := []
  chunks : List (String × Chunk) := []
  documents : List (String × Document) := []

/-- How the collaborators answer during a call; the embedder may give any number of vectors. -/
structure Answers (V : Type*) where
  deleteVectors : IndexEnd := .done
  deleteText : IndexEnd := .done
  embed : Option (List V)
  upsert : IndexEnd := .done
  index : IndexEnd := .done

namespace Retriever

variable {V : Type*}

/-- `remove`, and whether it returns. -/
def remove (docId : String) (a : Answers V) (s : Retriever V) : Retriever V × Bool :=
  match deleteDocument docId a.deleteVectors s.vectors with
  | (vectors, false) => ({ s with vectors }, false)
  | (vectors, true) =>
    match deleteDocument docId a.deleteText s.text with
    | (text, false) => ({ s with vectors, text }, false)
    | (text, true) =>
      ({ vectors, text, chunks := drop (idsOf docId s.chunks) s.chunks,
         documents := Dict.pop docId s.documents }, true)

/-- The items that the indexes are given. -/
def embedded (chunks : List Chunk) (vectors : List V) : List (String × Embedded V) :=
  (chunks.zip vectors).map fun p => (p.1.id, ⟨p.2, p.1.docId⟩)

def keyed (chunks : List Chunk) : List (String × Chunk) := chunks.map fun c => (c.id, c)

/-- The new version of a document: `none` where the call raises. -/
def add (doc : Document) (chunks : List Chunk) (replaced : Bool) (a : Answers V) (s : Retriever V) :
    Retriever V × Option IngestReport :=
  match a.embed with
  | none => (s, none)
  | some vectors =>
    if chunks.length ≠ vectors.length then (s, none)
    else
      match upsert (embedded chunks vectors) a.upsert s.vectors with
      | (vectors, false) => ({ s with vectors }, none)
      | (vectors, true) =>
        match upsert (keyed chunks) a.index s.text with
        | (text, false) => ({ s with vectors, text }, none)
        | (text, true) =>
          ({ vectors, text, chunks := putAll (keyed chunks) s.chunks,
             documents := Dict.set doc.id doc s.documents },
            some ⟨doc.id, doc.title, doc.collection, chunks.length, replaced⟩)

def known (doc : Document) (s : Retriever V) : Bool := (s.documents.lookup doc.id).isSome

/-- `ingest` -/
def ingest (chunkText : String → Option (List (Nat × String))) (doc : Document) (a : Answers V)
    (s : Retriever V) : Retriever V × Option IngestReport :=
  match if s.known doc then s.remove doc.id a else (s, true) with
  | (s, false) => (s, none)
  | (removed, true) =>
    match chunkText doc.text with
    | none => (removed, none)
    | some pieces => removed.add doc (chunkDocument doc pieces) (s.known doc) a

/-! ## Search -/

structure Hit (S : Type*) where
  chunk : Chunk
  score : S
  denseRank : Option Nat
  textRank : Option Nat

/-- How queries are embedded and ranked, and hits are reranked. -/
structure Ranking (V S : Type*) where
  dense : List (String × Embedded V) → String → Nat → List String
  lexical : List (String × Chunk) → String → Nat → List String
  fuse : List String → List String → Nat → List (String × S)
  rerank : String → List (Hit S) → List (Hit S)

/-- `_ranks` -/
def rankIn (ids : List String) (id : String) : Option Nat := (ids.idxOf? id).map (· + 1)

/-- `search`; `none` for its `ValueError`. -/
def search {S : Type*} (R : Ranking V S) (query : String) (limit candidates : Nat)
    (s : Retriever V) : Option (List (Hit S)) :=
  if Text.strip query.toList = [] ∨ s.chunks = [] then some []
  else if limit < 1 ∨ candidates < limit then none
  else
    let dense := R.dense s.vectors query candidates
    let lexical := R.lexical s.text query candidates
    let hits := (R.fuse dense lexical candidates).filterMap fun item =>
      (s.chunks.lookup item.1).map fun chunk =>
        ⟨chunk, item.2, rankIn dense item.1, rankIn lexical item.1⟩
    some ((R.rerank query hits).take limit)

end Retriever

end Rag

end Slas
