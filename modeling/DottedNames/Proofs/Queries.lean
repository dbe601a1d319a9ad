import DottedNames.Proofs.Reaction

/-!
# Queries

A query about a document is answered from the store if the document is there. If it is
not, it is read from disk and stored, and then looked up once more. The second look-up
has a failure of its own, which never happens: what is not in the store is not open
either, so the store takes over what was read.

There are only three ways a query can go, and all that is to be said about queries is
seen from them.

## Main results

* `Store.linesOf_cases` — the three ways.
* `Store.linesOf_again` — the same query once more.
* `Store.queries_add_only_what_is_asked` — queries as a whole.
-/

namespace DottedNames

namespace Store

variable (store : Store) (view : View) (path : Text)

/-- A query finds the document in the store, or cannot read it, or reads it and stores
it. -/
theorem linesOf_cases :
    (∃ doc, store.get? path = some doc ∧ store.linesOf view path = (some doc.lines, store)) ∨
      (store.get? path = none ∧ (∃ failure, view.read path = .error failure) ∧
        store.linesOf view path = (none, store)) ∨
      ∃ content, store.get? path = none ∧ view.read path = .ok content ∧
        store.linesOf view path = (some (Text.lines content), store.commit path content) := by
  unfold linesOf
  cases hHeld : store.get? path with
  | some doc => exact Or.inl ⟨doc, rfl, rfl⟩
  | none =>
      cases hRead : view.read path with
      | error failure =>
          exact Or.inr (Or.inl ⟨rfl, ⟨failure, rfl⟩, by simp [scanned_of_error hRead, hHeld]⟩)
      | ok content =>
          refine Or.inr (Or.inr ⟨content, rfl, rfl, ?_⟩)
          simp [scanned_of_read hRead, get?_commit_absent hHeld]

/-- The answer is what the store has after the query. -/
theorem linesOf_fst :
    (store.linesOf view path).1 = ((store.linesOf view path).2.get? path).map Held.lines := by
  obtain ⟨doc, hHeld, hLines⟩ | ⟨hNone, -, hLines⟩ | ⟨content, hNone, -, hLines⟩ :=
    store.linesOf_cases view path
  · rw [hLines, hHeld]
    rfl
  · rw [hLines, hNone]
    rfl
  · simp [hLines, get?_commit_absent hNone]

/-- The same query once more has the same answer and changes nothing. -/
theorem linesOf_again :
    (store.linesOf view path).2.linesOf view path = store.linesOf view path := by
  obtain ⟨doc, -, hLines⟩ | ⟨-, -, hLines⟩ | ⟨content, hNone, -, hLines⟩ :=
    store.linesOf_cases view path
  · rw [hLines, hLines]
  · rw [hLines, hLines]
  · rw [hLines]
    simp [linesOf, get?_commit_absent hNone]

theorem elementAt_eq (line : Int64) :
    store.elementAt view path line =
      ((store.linesOf view path).1.map fun doc => Document.elementAt view doc line path,
        (store.linesOf view path).2) :=
  rfl

/-- A query is answered exactly when the document is in the store or can be read. -/
theorem isSome_linesOf :
    (store.linesOf view path).1.isSome = true ↔
      (store.get? path).isSome = true ∨ ∃ content, view.read path = .ok content := by
  obtain ⟨doc, hHeld, hLines⟩ | ⟨hNone, ⟨failure, hRead⟩, hLines⟩ |
      ⟨content, hNone, hRead, hLines⟩ := store.linesOf_cases view path
  · simp [hLines, hHeld]
  · simp [hLines, hNone, hRead]
  · simp [hLines, hRead]

/-- Queries only ever add the document that is asked for. They are answered when it is in
the store or can be read. In the first case, and when it cannot be read, the store stays
as it is; otherwise what is read is added, closed, and nothing else changes. The lines
are those of the document in the store afterwards and the element is the one at the line
in them. And either query, once more on the same disk, has the same answer and leaves
the store as it is. -/
theorem queries_add_only_what_is_asked (store : Store) (view : View) (path : Text)
    (line : Int64) :
    ((store.linesOf view path).1.isSome = true ↔
      (store.get? path).isSome = true ∨ ∃ content, view.read path = .ok content) ∧
    ((store.elementAt view path line).1.isSome = true ↔
      (store.get? path).isSome = true ∨ ∃ content, view.read path = .ok content) ∧
    (store.elementAt view path line).2 = (store.linesOf view path).2 ∧
    ((store.get? path).isSome = true ∨ (∃ failure, view.read path = .error failure) →
      (store.linesOf view path).2 = store) ∧
    (∀ content, store.get? path = none → view.read path = .ok content → ∀ other,
      (store.linesOf view path).2.get? other =
        if other = path then some (Held.ofFile path content) else store.get? other) ∧
    (store.linesOf view path).1 = ((store.linesOf view path).2.get? path).map Held.lines ∧
    (store.elementAt view path line).1 =
      (store.linesOf view path).1.map (fun doc => Document.elementAt view doc line path) ∧
    (store.linesOf view path).2.linesOf view path = store.linesOf view path ∧
    (store.linesOf view path).2.elementAt view path line = store.elementAt view path line := by
  have hAnswered := store.isSome_linesOf view path
  refine ⟨hAnswered, ?_, rfl, ?_, ?_, store.linesOf_fst view path, rfl,
    store.linesOf_again view path, ?_⟩
  · rw [elementAt_eq, Option.isSome_map]
    exact hAnswered
  · intro hStays
    obtain ⟨doc, -, hLines⟩ | ⟨-, -, hLines⟩ | ⟨content, hNone, hRead, -⟩ :=
      store.linesOf_cases view path
    · rw [hLines]
    · rw [hLines]
    · exact absurd hStays (by simp [hNone, hRead])
  · intro content hNone hRead other
    obtain ⟨doc, hHeld, -⟩ | ⟨-, ⟨failure, hError⟩, -⟩ | ⟨content', -, hRead', hLines⟩ :=
      store.linesOf_cases view path
    · exact absurd (hNone.symm.trans hHeld) (by simp)
    · exact absurd (hRead.symm.trans hError) (by simp)
    · obtain rfl : content = content' := Except.ok.inj (hRead.symm.trans hRead')
      rw [hLines]
      exact get?_commit_absent hNone content other
  · rw [elementAt_eq, linesOf_again, elementAt_eq]

end Store

end DottedNames
