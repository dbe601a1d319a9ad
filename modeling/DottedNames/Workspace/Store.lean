import DottedNames.Disk.Basic
import DottedNames.Source.Outline

/-!
# The document store

The store holds the documents a session knows about, each under its path. A
document sent by the editor is open and wins over the file on disk until it is
closed; a closed document is a copy of what was last read from disk.

The documents are kept in the order of their paths, one for each path at most,
so two stores with the same documents are equal.

## Main results

* `get?_put` — putting a document changes its own path and no other.
* `path_of_get?` — a document is stored under its own path.
-/

namespace DottedNames

/-- A document of the store. -/
structure Held where
  path : Text
  lines : Document
  /-- Whether the editor has the document open. -/
  isOpen : Bool
deriving DecidableEq, Repr

/-- The documents of a session, in the order of their paths. -/
structure Store where
  documents : List Held := []
deriving DecidableEq, Repr

namespace Store

/-- The document stored under a path. -/
def get? (store : Store) (path : Text) : Option Held :=
  store.documents.find? fun d => d.path == path

/-- Puts a document in front of the first one with a greater path. -/
def insertSorted (doc : Held) : List Held → List Held
  | [] => [doc]
  | d :: ds => if Text.isBefore doc.path d.path then doc :: d :: ds else d :: insertSorted doc ds

/-- Puts a document under its path, in place of the one stored there. -/
def put (store : Store) (doc : Held) : Store :=
  { documents := insertSorted doc (store.documents.filter fun d => d.path != doc.path) }

/-- Drops the documents for which a test holds. -/
def dropWhere (store : Store) (test : Held → Bool) : Store :=
  { documents := store.documents.filter fun d => !test d }

/-- Whether the editor has the document under a path open. -/
def isOpen (store : Store) (path : Text) : Bool :=
  match store.get? path with
  | some doc => doc.isOpen
  | none => false

/-- Records the editor's copy of a document. -/
def openDocument (store : Store) (path content : Text) : Store :=
  store.put { path, lines := Text.lines content, isOpen := true }

/-- Takes over content read from disk, unless the editor has the document
open. -/
def commit (store : Store) (path content : Text) : Store :=
  if store.isOpen path then store
  else store.put { path, lines := Text.lines content, isOpen := false }

/-- Loads a document from disk, unless the editor has it open. -/
def scan (store : Store) (view : View) (path : Text) : Except Failure Store :=
  (view.read path).map (store.commit path)

/-- Loads a document from disk if that is possible. -/
def scanned (store : Store) (view : View) (path : Text) : Store :=
  match store.scan view path with
  | .ok next => next
  | .error _ => store

/-- Hands a document back to its copy on disk. -/
def close (store : Store) (view : View) (path : Text) : Store :=
  (store.dropWhere fun d => d.path == path).scanned view path

/-- Drops a closed document. -/
def remove (store : Store) (path : Text) : Store :=
  store.dropWhere fun d => d.path == path && !d.isOpen

/-- What the paths of everything inside a directory begin with. -/
def insidePrefix (dir : Text) : Text := Text.trimSuffix [Byte.slash] dir ++ [Byte.slash]

/-- Drops the closed documents below a directory. -/
def removeBelow (store : Store) (dir : Text) : Store :=
  store.dropWhere fun d => (insidePrefix dir).isPrefixOf d.path && !d.isOpen

/-- The lines of a document, read from disk when it is not in the store yet,
and the store afterwards. -/
def linesOf (store : Store) (view : View) (path : Text) : Option Document × Store :=
  match store.get? path with
  | some doc => (some doc.lines, store)
  | none =>
    let store := store.scanned view path
    ((store.get? path).map Held.lines, store)

/-- The element at a line of a document, and the store afterwards. -/
def elementAt (store : Store) (view : View) (path : Text) (line : Int64) :
    Option Element × Store :=
  let (lines, store) := store.linesOf view path
  (lines.map fun doc => Document.elementAt view doc line path, store)

/-! ## The store as a map from paths -/

theorem find?_insertSorted (doc : Held) (path : Text) (ds : List Held)
    (h : ∀ d ∈ ds, d.path ≠ doc.path) :
    (insertSorted doc ds).find? (fun d => d.path == path) =
      if path = doc.path then some doc else ds.find? (fun d => d.path == path) := by
  induction ds with
  | nil =>
      by_cases hPath : path = doc.path
      · simp [insertSorted, hPath]
      · simp [insertSorted, hPath, Ne.symm hPath]
  | cons d ds ih =>
      have ihRest := ih fun e he => h e (List.mem_cons_of_mem _ he)
      have hHead := h d (by simp)
      unfold insertSorted
      split
      · by_cases hPath : path = doc.path
        · simp [hPath]
        · simp [List.find?_cons, hPath, Ne.symm hPath]
      · rw [List.find?_cons, ihRest, List.find?_cons]
        by_cases hPath : path = doc.path
        · rw [hPath, beq_eq_false_iff_ne.2 hHead]
        · simp [hPath]

theorem get?_put (store : Store) (doc : Held) (path : Text) :
    (store.put doc).get? path = if path = doc.path then some doc else store.get? path := by
  unfold put get?
  rw [find?_insertSorted _ _ _ (by simp)]
  split
  · rfl
  · next hPath =>
      rw [List.find?_filter]
      congr 1
      funext d
      by_cases hSame : d.path = path
      · simp [hSame, hPath]
      · simp [hSame]

/-- A document stored under a path has that path. -/
theorem path_of_get? {store : Store} {path : Text} {doc : Held} (h : store.get? path = some doc) :
    doc.path = path := by
  simpa using List.find?_some h

end Store

end DottedNames
