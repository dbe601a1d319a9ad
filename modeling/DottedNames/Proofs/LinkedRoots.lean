import DottedNames.Proofs.Loading
import Mathlib.Data.List.Induction

/-!
# Roots that are links

To start a watcher is to load the workspace from its root. When the root is a directory,
however it is written, every Python source below it gets into the store. When it is a
link to a directory, everything else that is done with the root leads through the link,
but loading inspects the start and stops there: the start is something else than a
directory, and not a file to be read either. The watcher starts all the same, with an
unchanged store and no watches.

## Main results

* `View.exists_inspect_of_follow` — what can be followed can be inspected.
* `Survey.SourceBelow.offered` — sources below a directory are offered.
* `Watcher.start_loads_sources_iff` — when starting puts the sources into the store.
-/

namespace DottedNames

/-! ## Stopping at a last link -/

namespace Disk

variable {disk : Disk} {loc : Location} {names : List Text}

/-- A path that leads somewhere leads somewhere too when its last link is not followed: to
the same place or to the link. -/
theorem resolve_unfollowed {links : Nat} {found : Location} {entry : Entry}
    (h : disk.resolve { follow := true, absent := false } links loc names = .ok found)
    (hEntry : disk.get? found = some entry) :
    ∃ other there, disk.resolve { follow := false, absent := false } links loc names = .ok other ∧
      disk.get? other = some there := by
  fun_induction resolve disk { follow := true, absent := false } links loc names with
  | case1 links loc names fault hWalk => exact absurd h (by simp)
  | case2 links loc names arrived hWalk =>
      obtain rfl : arrived = found := Except.ok.inj h
      obtain hSame | ⟨stop, target, hStop, hLink⟩ :=
        walk_follow_or_link disk { follow := false, absent := false } loc names
      · exact ⟨arrived, entry, by rw [resolve, ← hSame, hWalk], hEntry⟩
      · exact ⟨stop, .link target, by rw [resolve, hStop], hLink⟩
  | case3 loc names next more hWalk => exact absurd h (by simp)
  | case4 loc names next more hWalk links ih =>
      obtain hSame | ⟨stop, target, hStop, hLink⟩ :=
        walk_follow_or_link disk { follow := false, absent := false } loc names
      · obtain ⟨other, there, hOther, hThere⟩ := ih h
        exact ⟨other, there, by rw [resolve, ← hSame, hWalk]; exact hOther, hThere⟩
      · exact ⟨stop, .link target, by rw [resolve, hStop], hLink⟩

end Disk

/-- What can be followed can be inspected. -/
theorem View.exists_inspect_of_follow {view : View} {path : Text} {entry : Entry}
    (h : view.follow path = .ok entry) : ∃ there, view.inspect path = .ok there := by
  obtain ⟨loc, hLoc, hEntry⟩ := View.entry_eq_ok_iff.1 h
  obtain ⟨hZero, hNil, hShort, hResolve⟩ := View.locate_eq_ok_iff.1 hLoc
  obtain ⟨other, there, hOther, hThere⟩ := Disk.resolve_unfollowed hResolve hEntry
  exact ⟨there, View.entry_eq_ok_iff.2
    ⟨other, View.locate_eq_ok_iff.2 ⟨hZero, hNil, hShort, hOther⟩, hThere⟩⟩

/-! ## Sources below a root -/

namespace Survey

variable {view : View} {root name : Text} {dirs : List Text}

/-- The path that is reached from a start by names. -/
def walked (start : Text) (names : List Text) : Text := names.foldl Path.join start

theorem walked_concat (start : Text) (names : List Text) (name : Text) :
    walked start (names ++ [name]) = Path.join (walked start names) name := by
  simp [walked]

/-- Below a root there is a Python source: regular, and in real directories none of which
is passed over. Nothing is said of the root itself. -/
structure SourceBelow (view : View) (root : Text) (dirs : List Text) (name : Text) : Prop where
  names : ∀ n ∈ dirs ++ [name], IsName n
  passed : ∀ n ∈ dirs, isSkipped n = false
  directories : ∀ front, front ≠ [] → front <+: dirs →
    view.inspect (walked root front) = .ok .directory
  file : ∃ content, view.inspect (walked root (dirs ++ [name])) = .ok (.file content)
  python : Path.isPython (walked root (dirs ++ [name])) = true

/-- The directories on the way to a source are entered. -/
theorem SourceBelow.entered (h : SourceBelow view root dirs name)
    (hRoot : view.inspect root = .ok .directory) {front : List Text} (hFront : front <+: dirs) :
    Entered view root root (walked root front) := by
  induction front using List.reverseRecOn with
  | nil => exact .top hRoot (by simp [enters])
  | append_singleton front last ih =>
      have hAbove := ih ((List.prefix_append front [last]).trans hFront)
      have hMem : last ∈ dirs := hFront.subset (by simp)
      have hDir := h.directories (front ++ [last]) (by simp) hFront
      rw [walked_concat] at hDir ⊢
      exact .inside hAbove (h.names last (by simp [hMem])) hDir (by simp [enters, h.passed last hMem])

/-- A source below a root that is a directory is offered. -/
theorem SourceBelow.offered (h : SourceBelow view root dirs name)
    (hRoot : view.inspect root = .ok .directory) :
    Offered view root root (walked root (dirs ++ [name])) := by
  obtain ⟨content, hFile⟩ := h.file
  have hPython := h.python
  rw [walked_concat] at hFile hPython ⊢
  exact .inside (h.entered hRoot (List.prefix_refl dirs)) (h.names name (by simp)) hFile (by simp)
    hPython

/-- A survey from a link to a directory lists nothing that can be read. -/
theorem Listed.not_read {path content : Text} (h : Listed view root root path)
    (hFollow : view.follow root = .ok .directory)
    (hRoot : view.inspect root ≠ .ok .directory) : view.read path ≠ .ok content := by
  rcases h with ⟨dir, hReached, -⟩ | ⟨-, -, rfl⟩
  · exact absurd hReached.1 hRoot
  · exact View.not_read_of_directory hFollow

end Survey

/-! ## Starting -/

namespace Watcher

/-- Starting from a root that leads to a directory does not fail, and a source below the
root is in the store afterwards if and only if it was there before or the root is itself
a directory and no link. -/
theorem start_loads_sources_iff (watcher : Watcher) (ws : Workspace) (view : View)
    (hTree : view.disk.IsTree) (hSound : ws.store.Sound)
    (hRoot : view.follow ws.root = .ok .directory) (hSettled : view.Settled ws.root) :
    ∃ next watcher', watcher.start ws view = .ok (next, watcher') ∧
      ∀ dirs name, Survey.SourceBelow view ws.root dirs name →
        ((next.store.get? (Survey.walked ws.root (dirs ++ [name]))).isSome ↔
          view.inspect ws.root = .ok .directory ∨
            (ws.store.get? (Survey.walked ws.root (dirs ++ [name]))).isSome) := by
  obtain ⟨entry, hEntry⟩ := View.exists_inspect_of_follow hRoot
  obtain ⟨survey, hStart⟩ : ∃ survey, Survey.start view ws.root ws.root = .ok survey :=
    Survey.exists_start hEntry
  have hTakes := Workspace.takes_of_start hTree hSound watcher.watches hStart
  refine ⟨(ws.absorb watcher.watches view survey).1,
    { watches := (ws.absorb watcher.watches view survey).2, running := true }, ?_, ?_⟩
  · rw [start, Workspace.load_of_start watcher.watches hStart]
  · intro dirs name hSource
    by_cases hDir : view.inspect ws.root = .ok .directory
    · have hListed := (hSource.offered hDir).listed hTree hSettled
      obtain ⟨content, hFile⟩ := hSource.file
      have hRead := View.read_of_inspect hFile
      simp only [hDir, true_or, iff_true]
      cases hOpen : ws.store.isOpen (Survey.walked ws.root (dirs ++ [name])) with
      | false =>
          rw [hTakes.taken _ content hListed hRead hOpen]
          rfl
      | true =>
          rw [hTakes.kept _ (by simp [hOpen])]
          rw [Store.isOpen_eq_any] at hOpen
          exact Option.isSome_of_any hOpen
    · have hKept := hTakes.kept (Survey.walked ws.root (dirs ++ [name]))
        fun ⟨hListed, ⟨content, hRead⟩, _⟩ => hListed.not_read hRoot hDir hRead
      rw [hKept]
      simp [hDir]

/-- A directory with a source in a package, and a link to the directory. -/
def linked : View :=
  { disk := (Disk.apply {} [.write (text "/w/real/pkg/a.py") (text "a"),
      .makeLink (text "/w/link") (text "real")]).disk }

theorem isTree_linked : linked.disk.IsTree := by
  decide +kernel

/-- The source is below the link, whether a slash follows the link or not. -/
theorem sourceBelow_linked {root : Text} (hRoot : root = text "/w/link" ∨ root = text "/w/link/") :
    Survey.SourceBelow linked root [text "pkg"] (text "a.py") := by
  have hDir : linked.inspect (text "/w/link/pkg") = .ok .directory := by decide +kernel
  have hFile : linked.inspect (text "/w/link/pkg/a.py") = .ok (.file (text "a")) := by
    decide +kernel
  have hWalked : Survey.walked root [text "pkg"] = text "/w/link/pkg" ∧
      Survey.walked root ([text "pkg"] ++ [text "a.py"]) = text "/w/link/pkg/a.py" := by
    rcases hRoot with rfl | rfl
    · decide
    · decide
  refine ⟨by decide, by decide, ?_, ⟨text "a", by rw [hWalked.2, hFile]⟩, ?_⟩
  · intro front hNe hFront
    rcases List.prefix_cons_iff.1 hFront with rfl | ⟨rest, rfl, hRest⟩
    · exact absurd rfl hNe
    · rw [List.prefix_nil.1 hRest, hWalked.1, hDir]
  · rw [hWalked.2]
    decide

/-- With a slash after it the link is followed, and the source is loaded. -/
theorem start_loads_source_after_slash :
    linked.disk.IsTree ∧ Store.Sound {} ∧ linked.follow (text "/w/link/") = .ok .directory ∧
      linked.Settled (text "/w/link/") ∧
        ∃ next watcher', start {} { root := text "/w/link/" } linked = .ok (next, watcher') ∧
          (next.store.get? (text "/w/link/pkg/a.py")).isSome := by
  have hFollow : linked.follow (text "/w/link/") = .ok .directory := by decide +kernel
  have hInspect : linked.inspect (text "/w/link/") = .ok .directory := by decide +kernel
  have hSettled : linked.Settled (text "/w/link/") := View.settled_of_no_above (by decide)
  obtain ⟨next, watcher', hStart, hSources⟩ := start_loads_sources_iff {}
    { root := text "/w/link/" } linked isTree_linked Store.sound_empty hFollow hSettled
  have hHeld := (hSources _ _ (sourceBelow_linked (Or.inr rfl))).2 (Or.inl hInspect)
  exact ⟨isTree_linked, Store.sound_empty, hFollow, hSettled, next, watcher', hStart, hHeld⟩

/-- Without it the watcher starts and the source is missing from the store. -/
theorem start_misses_source_behind_link :
    ¬ ∀ (watcher : Watcher) (ws : Workspace) (view : View), view.disk.IsTree → ws.store.Sound →
        view.follow ws.root = .ok .directory → view.Settled ws.root →
          ∀ next watcher', watcher.start ws view = .ok (next, watcher') →
            ∀ dirs name, Survey.SourceBelow view ws.root dirs name →
              (next.store.get? (Survey.walked ws.root (dirs ++ [name]))).isSome := by
  intro hAlways
  have hFollow : linked.follow (text "/w/link") = .ok .directory := by decide +kernel
  have hStart : start {} { root := text "/w/link" } linked =
      .ok ({ root := text "/w/link" }, { running := true }) := by decide +kernel
  have hHeld := hAlways {} { root := text "/w/link" } linked isTree_linked Store.sound_empty hFollow
    (View.settled_of_no_above (by decide)) _ _ hStart _ _ (sourceBelow_linked (Or.inl rfl))
  exact absurd hHeld (by decide)

end Watcher

end DottedNames
