import DottedNames.Proofs.Loading
import DottedNames.Proofs.Provenance

/-!
# What an event leaves alone

An event is about the path it names and what lies inside it. The code tells this by the
beginnings of texts, where `/w/pkg2/a.py` begins with `/w/pkg` as well; but a slash is
put behind the path first, unless it ends in one, and for absolute paths in normal form
what begins so is what goes on from the path's names. At the top of the tree the path
ends in a slash, and begins itself like everything inside. That makes no difference to
documents, since none can be read there.

An event that creates a directory may read any number of files. All their paths were
joined from the event's path and listed names, so they go on from it as well, wherever
the links on the way may lead.

## Main results

* `Store.isInside_iff` — beginnings of texts and beginnings of lists of names.
* `Survey.Listed.isBelow` — a survey finds paths that go on from its start.
* `Workspace.get?_forget_of_absolute` — what an event with a removal drops.
* `Workspace.event_touches_only_its_subtree` — all events.
* `Session.get?_step_of_removal` — removals in a session, also of the top of the tree.
-/

namespace DottedNames

/-- A path is absolute and in normal form. -/
def Path.IsAbsolute (path : Text) : Prop := isRooted path = true ∧ clean path = path

namespace Path

variable {path : Text}

instance : Decidable (IsAbsolute path) := inferInstanceAs (Decidable (_ ∧ _))

theorem IsAbsolute.ofNames_names (h : IsAbsolute path) : ofNames (names path) = path :=
  ofNames_of_clean h.1 h.2

theorem IsAbsolute.isName (h : IsAbsolute path) : ∀ n ∈ names path, IsName n :=
  isName_of_mem_names h.1

theorem IsAbsolute.eq_iff {other : Text} (h : IsAbsolute path) (hOther : IsAbsolute other) :
    path = other ↔ names path = names other := by
  refine ⟨fun hEq => by rw [hEq], fun hEq => ?_⟩
  rw [← h.ofNames_names, hEq, hOther.ofNames_names]

end Path

/-- Every document is stored under an absolute path. -/
def Store.AllAbsolute (store : Store) : Prop := ∀ doc ∈ store.documents, Path.IsAbsolute doc.path

/-- No document that was read is stored at the top of the tree. -/
def Store.IsClearAtTop (store : Store) : Prop :=
  ∀ doc, store.get? [Byte.slash] = some doc → doc.isOpen = true

/-- Nothing is read at the top of the tree. -/
theorem View.not_read_top (view : View) (content : Text) :
    view.read [Byte.slash] ≠ .ok content := by
  refine View.not_read_of_directory (View.entry_eq_ok_iff.2 ⟨[], ?_, rfl⟩)
  refine View.locate_eq_ok_iff.2 ⟨by decide, by simp, by decide, ?_⟩
  have hParts : view.parts [Byte.slash] = [[], []] := rfl
  rw [hParts, Disk.resolve_here _ _ _ (Or.inl rfl) rfl, Disk.resolve_here _ _ _ (Or.inl rfl) rfl,
    Disk.resolve_nil]

/-- So no session ever has a closed document there. -/
theorem Session.isClearAtTop_run (view : View) (root : Text) (steps : List Step) :
    ((fresh view root).run steps).store.IsClearAtTop := by
  intro doc hHeld
  cases hOpen : doc.isOpen with
  | true => rfl
  | false =>
      obtain ⟨content, ⟨earlier, x, -, -, -, -, -, hRead, -⟩, -⟩ := lastRead_of_closed hHeld hOpen
      exact absurd hRead (View.not_read_top _ content)

/-! ## Inside a path -/

namespace Store

/-- What is inside a path begins with its names. The top of the tree is inside itself. -/
theorem isInside_iff {path other : Text} (hPath : Path.IsAbsolute path)
    (hOther : Path.IsAbsolute other) :
    (insidePrefix path).isPrefixOf other = true ↔
      Path.names path <+: Path.names other ∧ (path = [Byte.slash] ∨ other ≠ path) := by
  have hNames := hPath.isName
  have hOtherNames := hOther.isName
  rw [← hPath.ofNames_names, ← hOther.ofNames_names, Path.names_ofNames hNames,
    Path.names_ofNames hOtherNames]
  generalize Path.names path = loc at hNames ⊢
  generalize Path.names other = names at hOtherNames ⊢
  by_cases hLoc : loc = []
  · -- both sides hold, since the other path is rooted
    subst hLoc
    have hTop : insidePrefix (Path.ofNames []) = [Byte.slash] := by decide
    rw [hTop]
    simp [Path.ofNames_eq, Text.join]
  · have hNotTop : Path.ofNames loc ≠ [Byte.slash] := fun hTop =>
      hLoc (Path.ofNames_inj (b := []) hNames (by simp) hTop)
    rw [insidePrefix_ofNames hLoc hNames, List.isPrefixOf_iff_prefix,
      Path.ofNames_prefix_iff hLoc hNames hOtherNames]
    constructor
    · rintro ⟨rest, hRest, rfl⟩
      refine ⟨List.prefix_append loc rest, Or.inr fun hSame => hRest ?_⟩
      simpa using Path.ofNames_inj hOtherNames hNames hSame
    · rintro ⟨⟨rest, rfl⟩, hEither⟩
      refine ⟨rest, fun hRest => ?_, rfl⟩
      rw [hRest, List.append_nil] at hEither
      exact hEither.elim hNotTop fun hNe => hNe rfl

end Store

namespace Survey

variable {view : View} {root : Text} {loc : Location} {path : Text}

/-- A path goes on from the names of a location. -/
def IsBelow (loc : Location) (path : Text) : Prop :=
  ∃ rest, (∀ n ∈ loc ++ rest, IsName n) ∧ path = Path.ofNames (loc ++ rest)

theorem IsBelow.join (h : IsBelow loc path) {name : Text} (hName : IsName name) :
    IsBelow loc (Path.join path name) := by
  obtain ⟨rest, hNames, rfl⟩ := h
  refine ⟨rest ++ [name], ?_, ?_⟩
  · intro n hn
    rw [← List.append_assoc] at hn
    rcases List.mem_append.1 hn with hOld | hNew
    · exact hNames n hOld
    · exact List.mem_singleton.1 hNew ▸ hName
  · rw [Path.join_ofNames hNames hName, List.append_assoc]

theorem IsBelow.prefix_names (h : IsBelow loc path) : loc <+: Path.names path := by
  obtain ⟨rest, hNames, rfl⟩ := h
  rw [Path.names_ofNames hNames]
  exact List.prefix_append loc rest

/-- A survey comes to paths that go on from its start. -/
theorem Reaches.isBelow (hTree : view.disk.IsTree) (hNames : ∀ n ∈ loc, IsName n)
    (h : Reaches view root (Path.ofNames loc) path) : IsBelow loc path := by
  induction h with
  | refl => exact ⟨[], by simpa using hNames, by simp⟩
  | tail hBefore hStep ih =>
      obtain ⟨name, hListed, rfl, -⟩ := hStep
      exact ih.join (isName_of_mem_listing hTree hListed)

/-- A survey finds files whose paths go on from its start. -/
theorem Listed.isBelow (hTree : view.disk.IsTree) (hNames : ∀ n ∈ loc, IsName n)
    (h : Listed view root (Path.ofNames loc) path) : IsBelow loc path := by
  rcases h with ⟨dir, ⟨-, -, hReaches⟩, name, entry, hListed, -, -, rfl⟩ | ⟨-, -, rfl⟩
  · exact (hReaches.isBelow hTree hNames).join (isName_of_mem_listing hTree hListed)
  · exact ⟨[], by simpa using hNames, by simp⟩

end Survey

/-! ## Events -/

namespace Workspace

variable {ws : Workspace} {watches : Watches} {view : View} {event : Event} {path : Text}

/-- What an event with a removal drops, if it is closed: documents strictly below the
event's path, and the one at the path if it names a source. -/
def Drops (gone path : Text) : Prop :=
  Path.names gone <+: Path.names path ∧ Path.names path ≠ Path.names gone ∨
    Path.isPython gone = true ∧ path = gone

instance (gone path : Text) : Decidable (Drops gone path) :=
  inferInstanceAs (Decidable (_ ∧ _ ∨ _ ∧ _))

/-- A removal drops what it should drop. -/
theorem get?_forget_of_absolute (hSound : ws.store.Sound) (hKeys : ws.store.AllAbsolute)
    {gone : Text} (hGone : Path.IsAbsolute gone)
    (hTop : gone = [Byte.slash] → ws.store.IsClearAtTop) (path : Text) :
    (ws.forget gone).store.get? path =
      if Drops gone path then (ws.store.get? path).filter Held.isOpen
      else ws.store.get? path := by
  rw [get?_forget_path hSound]
  cases hHeld : ws.store.get? path with
  | none => simp
  | some doc =>
      cases hOpen : doc.isOpen with
      | true => simp [Option.filter_some, hOpen]
      | false =>
          have hPath : Path.IsAbsolute path :=
            Store.path_of_get? hHeld ▸ hKeys doc (List.mem_of_find?_eq_some hHeld)
          have hSame : path = gone ↔ Path.names path = Path.names gone := hPath.eq_iff hGone
          have hInside : (Store.insidePrefix gone).isPrefixOf path = true ↔
              Path.names gone <+: Path.names path ∧ Path.names path ≠ Path.names gone := by
            rw [Store.isInside_iff hGone hPath, Ne, hSame]
            refine and_congr_right fun _ => or_iff_right_of_imp fun hSlash hEq => ?_
            rw [hSame.2 hEq, hSlash] at hHeld
            exact absurd (hTop hSlash doc hHeld) (by simp [hOpen])
          exact if_congr (or_congr_left hInside) rfl rfl

/-- A load changes nothing that does not go on from its start. -/
theorem get?_loaded_of_not_below (hTree : view.disk.IsTree) (hSound : ws.store.Sound)
    {loc : Location} (hNames : ∀ n ∈ loc, IsName n) (h : ¬ loc <+: Path.names path) :
    (ws.loaded watches view (Path.ofNames loc)).1.store.get? path = ws.store.get? path := by
  unfold loaded
  cases hStart : Survey.start view ws.root (Path.ofNames loc) with
  | error failure => simp [load, hStart, Except.map]
  | ok survey =>
      rw [load_of_start watches hStart]
      have hTakes := takes_of_start hTree hSound watches hStart
      refine hTakes.kept path ?_
      rintro ⟨hListed, -, -⟩
      exact h (hListed.isBelow hTree hNames).prefix_names

/-- An event changes nothing that does not go on from its path. -/
theorem get?_handle_of_not_below (hTree : view.disk.IsTree) (hSound : ws.store.Sound)
    (hKeys : ws.store.AllAbsolute) (hEvent : Path.IsAbsolute event.path)
    (h : ¬ Path.names event.path <+: Path.names path) :
    (ws.handle watches view event).1.store.get? path = ws.store.get? path := by
  have hElsewhere : path ≠ event.path := by
    rintro rfl
    exact h (List.prefix_refl _)
  unfold handle
  split
  · have hNot : ¬ Drops event.path path := by
      rintro (⟨hPrefix, -⟩ | ⟨-, hSame⟩)
      · exact h hPrefix
      · exact hElsewhere hSame
    have hBelowTop : event.path ≠ [Byte.slash] := by
      intro hSlash
      have hNone : Path.names event.path = [] := by rw [hSlash]; rfl
      exact h (hNone ▸ List.nil_prefix)
    rw [get?_forget_of_absolute hSound hKeys hEvent (absurd · hBelowTop), if_neg hNot]
  · split
    · rfl
    · split
      · rfl
      · split
        · rw [← hEvent.ofNames_names]
          exact get?_loaded_of_not_below hTree hSound hEvent.isName h
        · rfl
      · split
        · exact Store.get?_scanned_of_ne ws.store view hElsewhere
        · rfl

/-- An event touches only its own subtree. It leaves open documents alone and all those
that do not go on from its path. If it reports a removal or a renaming, whatever else it
reports, it drops the closed documents strictly below its path, and the one at the path
if that names a source, and nothing else; for the top of the tree this takes a store in
which nothing was read there, as no session has it. And if it reports neither of these
nor a creation or a write, it does nothing. -/
theorem event_touches_only_its_subtree (ws : Workspace) (watches : Watches) (view : View)
    (event : Event) (hTree : view.disk.IsTree) (hSound : ws.store.Sound)
    (hKeys : ws.store.AllAbsolute) (hEvent : Path.IsAbsolute event.path) :
    (∀ path, ws.store.isOpen path = true ∨ ¬ Path.names event.path <+: Path.names path →
      (ws.handle watches view event).1.store.get? path = ws.store.get? path) ∧
    ((event.signals.remove || event.signals.rename) = true →
      (event.path = [Byte.slash] → ws.store.IsClearAtTop) → ∀ path,
      (ws.handle watches view event).1.store.get? path =
        if Drops event.path path then (ws.store.get? path).filter Held.isOpen
        else ws.store.get? path) ∧
    ((event.signals.remove || event.signals.rename || event.signals.create ||
        event.signals.write) = false → ws.handle watches view event = (ws, watches)) := by
  refine ⟨fun path hEither => ?_, fun hGone hTop path => ?_, fun hNothing => ?_⟩
  · rcases hEither with hOpen | hElsewhere
    · exact (spares_handle ws watches view event).get?_of_open hSound hOpen
    · exact get?_handle_of_not_below hTree hSound hKeys hEvent hElsewhere
  · rw [handle_of_removal ws watches view hGone]
    exact get?_forget_of_absolute hSound hKeys hEvent hTop path
  · simp only [Bool.or_eq_false_iff] at hNothing
    obtain ⟨⟨⟨hRemove, hRename⟩, hCreate⟩, hWrite⟩ := hNothing
    simp [handle, hRemove, hRename, hCreate, hWrite]

/-- A package with an open and a closed document, and two neighbours whose paths begin
alike. -/
def packages : Workspace :=
  { root := text "/w"
    store := { documents := [Held.ofFile (text "/w/pkg.py") (text "p"),
      Held.ofFile (text "/w/pkg/a.py") (text "a"),
      { path := text "/w/pkg/b.py", lines := [text "b"], isOpen := true },
      Held.ofFile (text "/w/pkg2/a.py") (text "c")] } }

/-- The package is gone, and something was created in its place. -/
def packageGone : Event :=
  { path := text "/w/pkg", signals := { remove := true, create := true } }

/-- The removal of a package drops its closed document, and neither the open one nor the
neighbours. -/
theorem neighbours_survive_removal :
    Disk.IsTree {} ∧ packages.store.Sound ∧ packages.store.AllAbsolute ∧
      Path.IsAbsolute packageGone.path ∧
      (packages.handle [] {} packageGone).1.store.get? (text "/w/pkg/a.py") = none ∧
      ∀ path ∈ [text "/w/pkg/b.py", text "/w/pkg2/a.py", text "/w/pkg.py"],
        (packages.handle [] {} packageGone).1.store.get? path = packages.store.get? path := by
  have hTree : Disk.IsTree {} := Disk.isPlain_empty.toIsTree
  have hSound : packages.store.Sound := by
    show (packages.store.documents.map Held.path).Nodup
    decide
  have hKeys : packages.store.AllAbsolute := by
    show ∀ doc ∈ packages.store.documents, Path.IsAbsolute doc.path
    decide
  have hEvent : Path.IsAbsolute packageGone.path := by decide
  obtain ⟨hFrame, hGone, -⟩ :=
    event_touches_only_its_subtree packages [] {} packageGone hTree hSound hKeys hEvent
  have hDropped := hGone rfl (fun hTop => absurd hTop (by decide)) (text "/w/pkg/a.py")
  rw [if_pos (by decide)] at hDropped
  refine ⟨hTree, hSound, hKeys, hEvent, hDropped.trans (by decide), ?_⟩
  intro path hPath
  simp only [List.mem_cons, List.not_mem_nil, or_false] at hPath
  rcases hPath with rfl | rfl | rfl
  · exact hFrame _ (Or.inl (by decide))
  · exact hFrame _ (Or.inr (by decide))
  · exact hFrame _ (Or.inr (by decide))

end Workspace

/-- In a session an event with a removal drops what it should drop, whatever its path:
nothing was ever read at the top of the tree. -/
theorem Session.get?_step_of_removal (view : View) (root : Text) (steps : List Step) {event : Event}
    (hKeys : ((fresh view root).run steps).store.AllAbsolute)
    (hEvent : Path.IsAbsolute event.path)
    (hGone : (event.signals.remove || event.signals.rename) = true) (path : Text) :
    (((fresh view root).run steps).step (.handle event)).store.get? path =
      if Workspace.Drops event.path path then
        (((fresh view root).run steps).store.get? path).filter Held.isOpen
      else ((fresh view root).run steps).store.get? path := by
  have hSound : ((fresh view root).run steps).store.Sound :=
    (editorCopy_run (fresh view root) steps Store.sound_empty).1
  rw [step, store_withWatches, Workspace.handle_of_removal _ _ _ hGone]
  exact Workspace.get?_forget_of_absolute hSound hKeys hEvent
    (fun _ => isClearAtTop_run view root steps) path

end DottedNames
