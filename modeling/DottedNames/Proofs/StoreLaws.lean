import DottedNames.Workspace.Store

/-!
# Laws of the document store

Every operation of the store is read through `Store.get?`: what stands under a
path afterwards, given what stood there before. The equations for operations
that drop documents need the paths to be distinct, since a dropped document
must not uncover another one under the same path. An empty store is such a
store and every operation keeps it one.

## Main results

* `get?_dropWhere` — dropping documents, path by path.
* `get?_commit`, `get?_close`, `get?_remove`, `get?_removeBelow` — the
  operations, path by path.
* `Sound.put`, `Sound.dropWhere` — the store stays a map.
-/

namespace DottedNames

namespace Store

/-- No two documents have the same path. -/
def Sound (store : Store) : Prop := (store.documents.map Held.path).Nodup

theorem sound_empty : Sound {} := List.nodup_nil

theorem perm_insertSorted (doc : Held) (ds : List Held) :
    (insertSorted doc ds).Perm (doc :: ds) := by
  induction ds with
  | nil => exact List.Perm.refl [doc]
  | cons d ds ih =>
      by_cases hBefore : Text.isBefore doc.path d.path = true
      · simp [insertSorted, hBefore]
      · simp only [insertSorted, if_neg hBefore]
        have hInner : (d :: insertSorted doc ds).Perm (d :: doc :: ds) := ih.cons d
        exact hInner.trans (List.Perm.swap doc d ds)

theorem Sound.dropWhere {store : Store} (h : store.Sound) (test : Held → Bool) :
    (store.dropWhere test).Sound :=
  List.Nodup.sublist ((List.filter_sublist).map Held.path) h

theorem Sound.put {store : Store} (h : store.Sound) (doc : Held) : (store.put doc).Sound := by
  have hRest : ((store.documents.filter fun d => d.path != doc.path).map Held.path).Nodup :=
    List.Nodup.sublist ((List.filter_sublist).map Held.path) h
  have hPerm := (perm_insertSorted doc (store.documents.filter fun d => d.path != doc.path)).map
    Held.path
  refine hPerm.nodup_iff.2 (List.nodup_cons.2 ⟨?_, hRest⟩)
  intro hMem
  obtain ⟨d, hd, hPath⟩ := List.mem_map.1 hMem
  have hNe := (List.mem_filter.1 hd).2
  simp [hPath] at hNe

theorem Sound.openDocument {store : Store} (h : store.Sound) (path content : Text) :
    (store.openDocument path content).Sound :=
  h.put _

theorem Sound.commit {store : Store} (h : store.Sound) (path content : Text) :
    (store.commit path content).Sound := by
  unfold Store.commit
  split
  · exact h
  · exact h.put _

theorem Sound.scanned {store : Store} (h : store.Sound) (view : View) (path : Text) :
    (store.scanned view path).Sound := by
  unfold Store.scanned Store.scan
  cases view.read path with
  | error failure => exact h
  | ok content => exact h.commit path content

theorem Sound.close {store : Store} (h : store.Sound) (view : View) (path : Text) :
    (store.close view path).Sound :=
  (h.dropWhere _).scanned view path

theorem Sound.remove {store : Store} (h : store.Sound) (path : Text) : (store.remove path).Sound :=
  h.dropWhere _

theorem Sound.linesOf {store : Store} (h : store.Sound) (view : View) (path : Text) :
    (store.linesOf view path).2.Sound := by
  unfold Store.linesOf
  split
  · exact h
  · exact h.scanned view path

/-! ## What stands under a path -/

theorem get?_empty (path : Text) : get? {} path = none := rfl

theorem isOpen_eq_any (store : Store) (path : Text) :
    store.isOpen path = (store.get? path).any Held.isOpen := by
  unfold isOpen
  cases store.get? path <;> rfl

private theorem find?_filter_distinct (keep : Held → Bool) (path : Text) (ds : List Held)
    (h : (ds.map Held.path).Nodup) :
    (ds.filter keep).find? (fun d => d.path == path) =
      (ds.find? fun d => d.path == path).filter keep := by
  induction ds with
  | nil => rfl
  | cons d ds ih =>
      rw [List.map_cons, List.nodup_cons] at h
      by_cases hPath : d.path = path
      · have hAbsent : ds.find? (fun d => d.path == path) = none := by
          rw [List.find?_eq_none]
          intro e he hSame
          exact h.1 (hPath ▸ (beq_iff_eq.1 hSame) ▸ List.mem_map_of_mem he)
        by_cases hKeep : keep d = true
        · simp [hKeep, hPath, Option.filter_some]
        · have hRest := ih h.2
          rw [hAbsent] at hRest
          simp [hKeep, hPath, hRest, Option.filter_some]
      · have hHead : (d.path == path) = false := beq_eq_false_iff_ne.2 hPath
        by_cases hKeep : keep d = true
        · simp [hKeep, hHead, ih h.2]
        · simp [hKeep, hHead, ih h.2]

/-- Dropping documents leaves, under each path, what stood there if it passes. -/
theorem get?_dropWhere {store : Store} (h : store.Sound) (test : Held → Bool) (path : Text) :
    (store.dropWhere test).get? path = (store.get? path).filter fun d => !test d :=
  find?_filter_distinct _ path store.documents h

theorem get?_openDocument (store : Store) (path content other : Text) :
    (store.openDocument path content).get? other =
      if other = path then some { path, lines := Text.lines content, isOpen := true }
      else store.get? other :=
  get?_put store _ other

theorem get?_commit (store : Store) (path content other : Text) :
    (store.commit path content).get? other =
      if other = path ∧ store.isOpen path = false then
        some { path, lines := Text.lines content, isOpen := false }
      else store.get? other := by
  unfold commit
  cases hOpen : store.isOpen path with
  | true => simp
  | false => simp [get?_put]

/-- A document that is read for the first time is stored as it is read. -/
theorem get?_commit_absent {store : Store} {path : Text} (h : store.get? path = none)
    (content other : Text) :
    (store.commit path content).get? other =
      if other = path then some { path, lines := Text.lines content, isOpen := false }
      else store.get? other := by
  have hClosed : store.isOpen path = false := by simp [isOpen, h]
  simp [get?_commit, hClosed]

theorem scanned_of_read {store : Store} {view : View} {path content : Text}
    (h : view.read path = .ok content) : store.scanned view path = store.commit path content := by
  simp [scanned, scan, h, Except.map]

theorem scanned_of_error {store : Store} {view : View} {path : Text} {failure : Failure}
    (h : view.read path = .error failure) : store.scanned view path = store := by
  simp [scanned, scan, h, Except.map]

/-- Scanning one path leaves every other path alone. -/
theorem get?_scanned_of_ne (store : Store) (view : View) {path other : Text} (h : other ≠ path) :
    (store.scanned view path).get? other = store.get? other := by
  cases hRead : view.read path with
  | ok content => rw [scanned_of_read hRead, get?_commit, if_neg fun hBoth => h hBoth.1]
  | error failure => rw [scanned_of_error hRead]

/-- Closing a document leaves what reading its path gives. -/
theorem get?_close {store : Store} (h : store.Sound) (view : View) (path other : Text) :
    (store.close view path).get? other =
      if other = path then
        match view.read path with
        | .ok content => some { path, lines := Text.lines content, isOpen := false }
        | .error _ => none
      else store.get? other := by
  have hDrop : ∀ q, (store.dropWhere fun d => d.path == path).get? q =
      if q = path then none else store.get? q := by
    intro q
    rw [get?_dropWhere h]
    cases hHeld : store.get? q with
    | none => simp
    | some doc =>
        have hPath := path_of_get? hHeld
        by_cases hSame : q = path
        · simp [hSame, hPath]
        · simp [hSame, hPath]
  have hClosed : (store.dropWhere fun d => d.path == path).isOpen path = false := by
    rw [isOpen_eq_any, hDrop, if_pos rfl]
    rfl
  unfold close
  cases hRead : view.read path with
  | ok content =>
      rw [scanned_of_read hRead, get?_commit, hDrop]
      by_cases hSame : other = path
      · simp [hSame, hClosed]
      · simp [hSame]
  | error failure => rw [scanned_of_error hRead, hDrop]

/-- Removing a path drops its closed document. -/
theorem get?_remove {store : Store} (h : store.Sound) (path other : Text) :
    (store.remove path).get? other =
      if other = path then (store.get? other).filter Held.isOpen else store.get? other := by
  unfold remove
  rw [get?_dropWhere h]
  cases hHeld : store.get? other with
  | none => simp
  | some doc =>
      have hPath := path_of_get? hHeld
      by_cases hSame : other = path
      · simp [hSame, hPath, Option.filter]
      · simp [hSame, hPath, Option.filter]

/-- Removing what is below a directory drops the closed documents there. -/
theorem get?_removeBelow {store : Store} (h : store.Sound) (dir other : Text) :
    (store.removeBelow dir).get? other =
      if (insidePrefix dir).isPrefixOf other then (store.get? other).filter Held.isOpen
      else store.get? other := by
  unfold removeBelow
  rw [get?_dropWhere h]
  cases hHeld : store.get? other with
  | none => simp
  | some doc =>
      have hPath := path_of_get? hHeld
      by_cases hInside : (insidePrefix dir).isPrefixOf other = true
      · simp [hInside, hPath, Option.filter]
      · simp [hInside, hPath, Option.filter]

end Store

end DottedNames
