import DottedNames.Proofs.EditorCopies
import DottedNames.Proofs.Tracking

/-!
# Handling events

Events are handled one after the other, all of them on the disk as it is after
the changes they report. Here the disk is a plain tree that holds the root of
the workspace, and the events are notices heard by its watches.

What an event does is read path by path. One that reports something gone drops
the closed documents at and below its path. Any other scans files, and scanning
a path leaves there what the disk has or, when it has no file, what was there
before. A creation of a directory takes the directory in: it scans every file
that a survey finds below it and puts watches on every directory found.

## Main results

* `get?_forget`, `handle_cases` — the effect of one event.
* `on_takeIn_iff`, `get?_takeIn` — the effect of taking a directory in.
* `on_handleAll` — the watches after events in order.
* `copy_handleAll`, `copy_handleAll_of_gone`, `copy_handleAll_of_standing` —
  when a path ends up with what the disk has there.
-/

namespace DottedNames

/-- The closed document that a file's content makes. -/
def Held.ofFile (path content : Text) : Held :=
  { path, lines := Text.lines content, isOpen := false }

/-- The closed document that reading a path makes. -/
def View.copy (view : View) (path : Text) : Option Held :=
  match view.read path with
  | .ok content => some (Held.ofFile path content)
  | .error _ => none

/-- The content of the regular file at a path. -/
def View.regularFile? (view : View) (path : Text) : Option Text :=
  match view.inspect path with
  | .ok (.file content) => some content
  | _ => none

namespace Store

variable {store : Store} {view : View} {path : Text}

theorem Spares.isOpen {after : Store} (h : store.Spares after) (hSound : store.Sound)
    (path : Text) : after.isOpen path = store.isOpen path := by
  have hCopy := (h hSound).2 path
  rw [Bool.eq_iff_iff, isOpen_iff_editorCopy, isOpen_iff_editorCopy, hCopy]

theorem Spares.get?_of_open {after : Store} (h : store.Spares after) (hSound : store.Sound)
    (hOpen : store.isOpen path = true) : after.get? path = store.get? path := by
  obtain ⟨copy, hCopy⟩ := (isOpen_iff_editorCopy store path).1 hOpen
  have hAfter := (h hSound).2 path
  rw [hCopy] at hAfter
  rw [get?_of_editorCopy hAfter, get?_of_editorCopy hCopy]

/-- Scanning a closed path takes over what the disk has, if it has a file. -/
theorem get?_scanned_self (hClosed : store.isOpen path = false) :
    (store.scanned view path).get? path = (view.copy path).or (store.get? path) := by
  unfold View.copy
  cases hRead : view.read path with
  | ok content =>
      rw [scanned_of_read hRead, get?_commit, if_pos ⟨rfl, hClosed⟩]
      rfl
  | error failure =>
      rw [scanned_of_error hRead]
      rfl

/-- Scanning paths in order takes over what the disk has at each of them. -/
theorem get?_foldl_scanned (hSound : store.Sound) (hClosed : store.isOpen path = false)
    (paths : List Text) :
    (paths.foldl (fun store path => store.scanned view path) store).get? path =
      if path ∈ paths then (view.copy path).or (store.get? path) else store.get? path := by
  induction paths generalizing store with
  | nil => rfl
  | cons first paths ih =>
      have hSpares := spares_scanned store view first
      have hRest := ih (hSpares hSound).1 ((hSpares.isOpen hSound path).trans hClosed)
      rw [List.foldl_cons, hRest]
      by_cases hSame : first = path
      · subst hSame
        rw [get?_scanned_self hClosed]
        cases view.copy first <;> simp
      · rw [get?_scanned_of_ne store view (Ne.symm hSame)]
        simp [Ne.symm hSame]

/-- Closing a path leaves what the disk has. -/
theorem get?_close_self (hSound : store.Sound) :
    (store.close view path).get? path = view.copy path := by
  rw [get?_close hSound, if_pos rfl]
  rfl

end Store

namespace View

variable {view : View} {loc : Location}

theorem copy_of_file (hDirect : view.disk.Direct loc) (hAddress : Disk.Addressable loc)
    {content : Text} (hFile : view.disk.get? loc = some (.file content)) :
    view.copy (Path.ofNames loc) = some (Held.ofFile (Path.ofNames loc) content) := by
  have hRead := (read_ofNames_iff hDirect (hDirect.isName hFile)).2 ⟨hAddress, hFile⟩
  rw [copy, hRead]

/-- A path is read only where there is a file that can be addressed. -/
theorem file_of_copy (hDirect : view.disk.Direct loc) (hNames : ∀ n ∈ loc, IsName n) {doc : Held}
    (h : view.copy (Path.ofNames loc) = some doc) :
    Disk.Addressable loc ∧ ∃ content, view.disk.get? loc = some (.file content) := by
  unfold copy at h
  split at h
  · next content hRead =>
      obtain ⟨hAddress, hFile⟩ := (read_ofNames_iff hDirect hNames).1 hRead
      exact ⟨hAddress, content, hFile⟩
  · exact absurd h (by simp)

/-- Two trees that agree at a location, and have no link on the way, are read alike
there. -/
theorem copy_congr {a b : View} (ha : a.disk.Direct loc) (hb : b.disk.Direct loc)
    (hNames : ∀ n ∈ loc, IsName n) (h : a.disk.get? loc = b.disk.get? loc) :
    a.copy (Path.ofNames loc) = b.copy (Path.ofNames loc) := by
  have hOneWay : ∀ {x y : View}, x.disk.Direct loc → y.disk.Direct loc →
      x.disk.get? loc = y.disk.get? loc → ∀ doc, x.copy (Path.ofNames loc) = some doc →
        y.copy (Path.ofNames loc) = some doc := by
    intro x y hx hy hSame doc hCopy
    obtain ⟨hAddress, content, hFile⟩ := file_of_copy hx hNames hCopy
    rw [copy_of_file hx hAddress hFile] at hCopy
    rw [copy_of_file hy hAddress (hSame ▸ hFile), hCopy]
  exact Option.ext fun doc => ⟨hOneWay ha hb h doc, hOneWay hb ha h.symm doc⟩

/-- On a plain tree what is read is the regular file that is there. -/
theorem map_lines_copy (hPlain : view.disk.IsPlain) (hNames : ∀ n ∈ loc, IsName n) :
    (view.copy (Path.ofNames loc)).map Held.lines =
      (view.regularFile? (Path.ofNames loc)).map Text.lines := by
  have hSame : ∀ content, view.read (Path.ofNames loc) = .ok content ↔
      view.inspect (Path.ofNames loc) = .ok (.file content) := by
    intro content
    rw [read_ofNames_iff (hPlain.direct loc) hNames]
    exact (entry_ofNames_iff (hPlain.direct loc) _ hNames).symm
  unfold copy
  cases hRead : view.read (Path.ofNames loc) with
  | ok content =>
      rw [regularFile?, (hSame content).1 hRead]
      rfl
  | error failure =>
      have hNone : view.regularFile? (Path.ofNames loc) = none := by
        unfold regularFile?
        split
        · next content hInspect =>
            rw [(hSame content).2 hInspect] at hRead
            exact absurd hRead (by simp)
        · rfl
      rw [hNone]
      rfl

/-- Below a file nothing is read. -/
theorem copy_below_file {root : Location} (hPlain : view.disk.IsPlain)
    {content : Text} (hFile : view.disk.get? root = some (.file content)) {dir : Location}
    {name : Text} (hIn : InWorkspace root dir) (hNames : ∀ n ∈ dir ++ [name], IsName n) :
    view.copy (Path.ofNames (dir ++ [name])) = none := by
  cases hCopy : view.copy (Path.ofNames (dir ++ [name])) with
  | none => rfl
  | some doc =>
      obtain ⟨-, inside, hInside⟩ := View.file_of_copy (hPlain.direct _) hNames hCopy
      have hDir := hPlain.directory_of_prefix hIn.isPrefix (hPlain.directory_of_concat hInside)
      exact absurd (hFile.symm.trans hDir) (by simp)

end View

/-! ## One event -/

/-- The path of a location below the top does not end in a slash. -/
theorem Store.insidePrefix_ofNames {loc : Location} (hLoc : loc ≠ [])
    (hNames : ∀ n ∈ loc, IsName n) :
    Store.insidePrefix (Path.ofNames loc) = Path.ofNames loc ++ [Byte.slash] := by
  have hNotLast : ¬ [Byte.slash] <:+ Path.ofNames loc := by
    intro hSlash
    have hLast := hNames _ (List.getLast_mem hLoc)
    rw [Path.ofNames_eq_flatMap hLoc, ← List.dropLast_concat_getLast hLoc, List.flatMap_append]
      at hSlash
    obtain ⟨front, hFront⟩ := hSlash
    have hEnd := congrArg List.getLast? hFront
    rw [List.getLast?_append, List.getLast?_append] at hEnd
    have hName : (loc.getLast hLoc).getLast? = some ((loc.getLast hLoc).getLast hLast.ne_nil) :=
      List.getLast?_eq_some_getLast _
    have hSame : Byte.slash = (loc.getLast hLoc).getLast hLast.ne_nil := by
      simpa [List.getLast?_cons, hName] using hEnd
    exact hLast.no_slash (hSame ▸ List.getLast_mem hLast.ne_nil)
  have hKept : [Byte.slash].isSuffixOf (Path.ofNames loc) = false := by
    rw [← Bool.not_eq_true, List.isSuffixOf_iff_suffix]
    exact hNotLast
  rw [Store.insidePrefix, Text.trimSuffix, hKept]
  rfl

namespace Workspace

variable {ws : Workspace} {watches : Watches} {view : View} {root : Location}

/-- What is forgotten about a path: the closed documents inside it, and the one at the
path itself when it names a source. -/
theorem get?_forget_path (hSound : ws.store.Sound) (path other : Text) :
    (ws.forget path).store.get? other =
      if (Store.insidePrefix path).isPrefixOf other = true ∨
          Path.isPython path = true ∧ other = path then
        (ws.store.get? other).filter Held.isOpen
      else ws.store.get? other := by
  show (Store.removeBelow (if _ then _ else _) _).get? _ = _
  by_cases hPython : Path.isPython path = true
  · rw [if_pos hPython, Store.get?_removeBelow (hSound.remove path), Store.get?_remove hSound]
    by_cases hSame : other = path
    · simp [hPython, hSame, Option.filter_filter]
    · simp [hSame]
  · rw [if_neg hPython, Store.get?_removeBelow hSound]
    simp [hPython]

/-- What is forgotten about a location: the closed documents at and below it. -/
theorem get?_forget (hSound : ws.store.Sound) {loc other : Location} (hLoc : loc ≠ [])
    (hNames : ∀ n ∈ loc, IsName n) (hOther : ∀ n ∈ other, IsName n)
    (hPython : Path.isPython (Path.ofNames other) = true) :
    (ws.forget (Path.ofNames loc)).store.get? (Path.ofNames other) =
      if loc <+: other then (ws.store.get? (Path.ofNames other)).filter Held.isOpen
      else ws.store.get? (Path.ofNames other) := by
  have hInside : (Store.insidePrefix (Path.ofNames loc)).isPrefixOf (Path.ofNames other) = true ↔
      ∃ rest, rest ≠ [] ∧ other = loc ++ rest := by
    rw [Store.insidePrefix_ofNames hLoc hNames, List.isPrefixOf_iff_prefix]
    exact Path.ofNames_prefix_iff hLoc hNames hOther
  have hTouched : ((Store.insidePrefix (Path.ofNames loc)).isPrefixOf (Path.ofNames other) = true ∨
      Path.isPython (Path.ofNames loc) = true ∧ Path.ofNames other = Path.ofNames loc) ↔
        loc <+: other := by
    rw [hInside]
    constructor
    · rintro (⟨rest, -, rfl⟩ | ⟨-, hSame⟩)
      · exact List.prefix_append loc rest
      · obtain rfl := Path.ofNames_inj hOther hNames hSame
        exact List.prefix_refl other
    · rintro ⟨rest, rfl⟩
      by_cases hRest : rest = []
      · subst hRest
        rw [List.append_nil] at hPython ⊢
        exact Or.inr ⟨hPython, rfl⟩
      · exact Or.inl ⟨rest, hRest, rfl⟩
  rw [get?_forget_path hSound]
  simp only [hTouched]

/-- A notice that watches of the workspace can hear: what is not gone lies in a
directory that is entered. -/
structure IsLocal (root : Location) (n : Notice) : Prop extends n.IsProper where
  inside : n.gone = false → InWorkspace root n.loc.dropLast

/-- What such a notice reports, if it is not gone, is strictly below the root. -/
theorem IsLocal.strictlyBelow {n : Notice} (h : IsLocal root n) (hStays : n.gone = false) :
    root <+: n.loc ∧ n.loc ≠ root := by
  have hAbove := (h.inside hStays).isPrefix
  refine ⟨hAbove.trans (List.dropLast_prefix n.loc), fun hSame => ?_⟩
  have hLength := hAbove.length_le
  have hPositive := List.length_pos_iff.2 h.ne_nil
  rw [← hSame, List.length_dropLast] at hLength
  omega

theorem handle_of_gone {n : Notice} (h : n.gone = true) :
    ws.handle watches view n.toEvent = (ws.forget (Path.ofNames n.loc), watches) :=
  handle_of_removal ws watches view h

/-- Taking over what a survey from a directory finds. -/
def takeIn (ws : Workspace) (watches : Watches) (view : View) (loc : Location) :
    Workspace × Watches :=
  ws.absorb watches view
    (Survey.ofDirectory view ws.root (view.disk.depth + 1) (Path.ofNames loc))

section Events

variable (hPlain : view.disk.IsPlain) (hRoot : ws.root = Path.ofNames root)
include hPlain

theorem follow_ofNames {loc : Location} (hNames : ∀ n ∈ loc, IsName n) {entry : Entry} :
    view.follow (Path.ofNames loc) = .ok entry ↔
      Disk.Addressable loc ∧ view.disk.get? loc = some entry :=
  View.entry_ofNames_iff (hPlain.direct loc) _ hNames

/-- Whatever arrived at an addressable place is scanned if it is a Python file. -/
theorem handle_file {n : Notice} (hSignals : n.signals = { create := true } ∨
    n.signals = { write := true }) (hAddress : Disk.Addressable n.loc) {content : Text}
    (hFile : view.disk.get? n.loc = some (.file content))
    (hPython : Path.isPython (Path.ofNames n.loc) = true) :
    ws.handle watches view n.toEvent =
      ({ ws with store := ws.store.scanned view (Path.ofNames n.loc) }, watches) := by
  have hFollow := (follow_ofNames hPlain (hPlain.isName hFile)).2 ⟨hAddress, hFile⟩
  rcases hSignals with hSignals | hSignals <;>
    simp [handle, Notice.toEvent, hSignals, hFollow, hPython]

include hRoot

/-- A directory that was created in the workspace is taken in. -/
theorem handle_directory {n : Notice} (hSignals : n.signals = { create := true })
    (hNe : n.loc ≠ root) (hIn : InWorkspace root n.loc) (hAddress : Disk.Addressable n.loc)
    (hDir : view.disk.get? n.loc = some .directory) :
    ws.handle watches view n.toEvent = ws.takeIn watches view n.loc := by
  have hFollow := (follow_ofNames hPlain (hPlain.isName hDir)).2 ⟨hAddress, hDir⟩
  have hStart := Survey.start_ofNames hPlain hIn hDir hAddress
  have hBase : Survey.isSkipped (Path.base (Path.ofNames n.loc)) = false := by
    obtain ⟨below, hLoc, hSkip⟩ := hIn
    rcases List.eq_nil_or_concat below with rfl | ⟨front, last, rfl⟩
    · exact absurd (by simpa using hLoc) hNe
    · have hLast : IsName last := hPlain.isName hDir last (by simp [hLoc])
      rw [hLoc, List.concat_eq_append, ← List.append_assoc, Path.base_ofNames _ hLast]
      exact hSkip last (by simp)
  simp [handle, Notice.toEvent, hSignals, hFollow, hBase, loaded, load, hRoot, hStart, Except.map,
    takeIn]

/-- An event that reports nothing gone does nothing, scans its path, or takes a
directory of the workspace in. -/
theorem handle_cases {n : Notice} (hLocal : IsLocal root n) (hStays : n.gone = false) :
    ws.handle watches view n.toEvent = (ws, watches) ∨
      ws.handle watches view n.toEvent =
        ({ ws with store := ws.store.scanned view (Path.ofNames n.loc) }, watches) ∨
      InWorkspace root n.loc ∧ Disk.Addressable n.loc ∧
        view.disk.get? n.loc = some .directory ∧
          ws.handle watches view n.toEvent = ws.takeIn watches view n.loc := by
  have hNotGone : (n.signals.remove || n.signals.rename) = false := hStays
  unfold handle Notice.toEvent
  simp only [hNotGone, Bool.false_eq_true, if_false]
  split
  · exact Or.inl rfl
  · split
    · exact Or.inl rfl
    · next hFollow =>
        obtain ⟨hAddress, hDir⟩ := (follow_ofNames hPlain hLocal.names).1 hFollow
        split
        · next hEnter =>
            have hLast := hLocal.names _ (List.getLast_mem hLocal.ne_nil)
            have hIn : InWorkspace root n.loc := by
              have hConcat := List.dropLast_concat_getLast hLocal.ne_nil
              have hBase := Path.base_ofNames n.loc.dropLast hLast
              rw [hConcat] at hBase
              rw [hBase] at hEnter
              rw [← hConcat]
              refine (hLocal.inside hStays).append fun name hName => ?_
              rw [List.mem_singleton.1 hName]
              simpa using (Bool.and_eq_true_iff.1 hEnter).2
            refine Or.inr (Or.inr ⟨hIn, hAddress, hDir, ?_⟩)
            have hStart := Survey.start_ofNames hPlain hIn hDir hAddress
            simp [loaded, load, hRoot, hStart, Except.map, takeIn]
        · exact Or.inl rfl
    · split
      · exact Or.inr (Or.inl rfl)
      · exact Or.inl rfl

end Events

end Workspace

/-! ## Taking a directory in -/

namespace Watches

variable {watches : Watches} {view : View} {naming : Naming}

theorem on_add_iff {path : Text} {dir : Location} :
    (watches.add view path).On dir ↔
      watches.On dir ∨
        view.locate { follow := true, absent := false } (Path.clean path) = .ok dir := by
  unfold add
  cases hLocate : view.locate { follow := true, absent := false } (Path.clean path) with
  | error fault => simp
  | ok found =>
      by_cases hOn : watches.On found
      · have hSome := isSome_on?_iff.2 hOn
        simp only [hSome, if_true]
        refine ⟨Or.inl, fun hEither => hEither.elim id fun hSame => ?_⟩
        exact Except.ok.inj hSame ▸ hOn
      · have hNone : ¬ (watches.on? found).isSome = true := fun hSome => hOn (isSome_on?_iff.1 hSome)
        simp only [hNone]
        simp [On, or_and_right, exists_or]

theorem on_foldl_add_iff {paths : List Text} {dir : Location} :
    (paths.foldl (fun watches path => watches.add view path) watches).On dir ↔
      watches.On dir ∨
        ∃ path ∈ paths,
          view.locate { follow := true, absent := false } (Path.clean path) = .ok dir := by
  induction paths generalizing watches with
  | nil => simp
  | cons path paths ih =>
      rw [List.foldl_cons, ih, on_add_iff]
      simp [or_assoc]

theorem NamedBy.add (h : watches.NamedBy naming) {path : Text}
    (hPath : ∀ dir, view.locate { follow := true, absent := false } (Path.clean path) = .ok dir →
      Watch.IsNamedBy { loc := dir, name := Path.clean path } naming) :
    (watches.add view path).NamedBy naming := by
  unfold Watches.add
  cases hLocate : view.locate { follow := true, absent := false } (Path.clean path) with
  | error fault => exact h
  | ok found =>
      simp only
      split
      · exact h
      · intro w hw
        rcases List.mem_append.1 hw with hOld | hNew
        · exact h w hOld
        · rw [List.mem_singleton.1 hNew]
          exact hPath found hLocate

theorem NamedBy.foldl_add (h : watches.NamedBy naming) {paths : List Text}
    (hPaths : ∀ path ∈ paths, ∀ dir,
      view.locate { follow := true, absent := false } (Path.clean path) = .ok dir →
        Watch.IsNamedBy { loc := dir, name := Path.clean path } naming) :
    (paths.foldl (fun watches path => watches.add view path) watches).NamedBy naming := by
  induction paths generalizing watches with
  | nil => exact h
  | cons path paths ih =>
      exact ih (h.add (hPaths path (by simp))) fun other hOther => hPaths other (by simp [hOther])

end Watches

namespace Workspace

variable {ws : Workspace} {watches : Watches} {view : View} {naming : Naming}
  {root loc : Location}

section TakeIn

variable (hHosts : view.disk.Hosts root) (hRoot : ws.root = Path.ofNames root)
  (hIn : InWorkspace root loc) (hDir : view.disk.get? loc = some .directory)
include hHosts hRoot hIn hDir

/-- The directories that are taken in are directories of the workspace. -/
theorem directory_of_takeIn {path : Text} (hPath : path ∈
    (Survey.ofDirectory view ws.root (view.disk.depth + 1) (Path.ofNames loc)).directories) :
    ∃ dir, path = Path.ofNames dir ∧ loc <+: dir ∧ InWorkspace root dir ∧
      view.disk.get? dir = some .directory := by
  rw [hRoot] at hPath
  obtain ⟨below, hSkip, hGet, rfl⟩ := Survey.directories_sound hHosts.toIsPlain
    (hHosts.isName hHosts.home) hIn.isPrefix hDir hPath
  exact ⟨loc ++ below, rfl, List.prefix_append loc below, hIn.append hSkip, hGet⟩

/-- Taking a directory in puts watches on the directories at and below it. -/
theorem on_takeIn_iff {dir : Location} :
    (ws.takeIn watches view loc).2.On dir ↔
      watches.On dir ∨
        loc <+: dir ∧ view.disk.get? dir = some .directory ∧ InWorkspace root dir ∧
          Disk.Addressable dir := by
  show (List.foldl _ _ _ : Watches).On dir ↔ _
  rw [Watches.on_foldl_add_iff]
  refine or_congr_right ⟨?_, ?_⟩
  · rintro ⟨path, hPath, hLocate⟩
    obtain ⟨found, rfl, hBelow, hFoundIn, hGet⟩ :=
      directory_of_takeIn hHosts hRoot hIn hDir hPath
    rw [Path.clean_ofNames (hHosts.isName hGet)] at hLocate
    obtain ⟨rfl, hAddress, -⟩ :=
      View.addressable_of_locate (hHosts.direct _) (hHosts.isName hGet) hLocate
    exact ⟨hBelow, hGet, hFoundIn, hAddress⟩
  · rintro ⟨⟨below, rfl⟩, hGet, hFoundIn, hAddress⟩
    have hLocate : view.locate { follow := true, absent := false } (Path.ofNames (loc ++ below)) =
        .ok (loc ++ below) := View.locate_ofNames (hHosts.direct _) _ hGet hAddress
    refine ⟨_, ?_, by rwa [Path.clean_ofNames (hHosts.isName hGet)]⟩
    rw [hRoot]
    exact Survey.directories_cover hHosts.toIsPlain (hHosts.isName hHosts.home) hIn.isPrefix
      (by omega) (hFoundIn.below hIn.isPrefix rfl) hGet hAddress

theorem namedBy_takeIn (hNaming : naming.GivesPaths root) (hNamed : watches.NamedBy naming) :
    (ws.takeIn watches view loc).2.NamedBy naming := by
  refine hNamed.foldl_add fun path hPath dir hLocate => ?_
  obtain ⟨found, rfl, -, hFoundIn, hGet⟩ := directory_of_takeIn hHosts hRoot hIn hDir hPath
  have hFound : ∀ n ∈ found, IsName n := hHosts.isName hGet
  rw [Path.clean_ofNames hFound] at hLocate
  obtain ⟨rfl, -⟩ := View.addressable_of_locate (hHosts.direct _) hFound hLocate
  rw [Path.clean_ofNames hFound]
  refine ⟨rfl, fun name hName => hNaming dir name hFoundIn.isPrefix fun n hn => ?_⟩
  rcases List.mem_append.1 hn with hAbove | hLast
  · exact hFound n hAbove
  · exact List.mem_singleton.1 hLast ▸ hName

omit hDir in
/-- Taking a directory in takes over the Python files at and below it. -/
theorem get?_takeIn (hSound : ws.store.Sound) {dir : Location} {name content : Text}
    (hClosed : ws.store.isOpen (Path.ofNames (dir ++ [name])) = false) (hBelow : loc <+: dir)
    (hDirIn : InWorkspace root dir)
    (hFile : view.disk.get? (dir ++ [name]) = some (.file content))
    (hAddress : Disk.Addressable (dir ++ [name]))
    (hPython : Path.isPython (Path.ofNames (dir ++ [name])) = true) :
    (ws.takeIn watches view loc).1.store.get? (Path.ofNames (dir ++ [name])) =
      some (Held.ofFile (Path.ofNames (dir ++ [name])) content) := by
  obtain ⟨below, rfl⟩ := hBelow
  have hFound : Path.ofNames (loc ++ below ++ [name]) ∈
      (Survey.ofDirectory view ws.root (view.disk.depth + 1) (Path.ofNames loc)).files := by
    rw [hRoot]
    exact Survey.files_cover hHosts.toIsPlain (hHosts.isName hHosts.home) hIn.isPrefix
      (by omega) (hDirIn.below hIn.isPrefix rfl) hFile hAddress hPython
  show (List.foldl _ _ _ : Store).get? _ = _
  rw [Store.get?_foldl_scanned hSound hClosed, if_pos hFound,
    View.copy_of_file (hHosts.direct _) hAddress hFile]
  rfl

end TakeIn

/-- Whatever an event that reports nothing gone does to the store, it does by
scanning paths. -/
theorem handle_scans {event : Event}
    (h : (event.signals.remove || event.signals.rename) = false) :
    ∃ paths : List Text, (ws.handle watches view event).1.store =
      paths.foldl (fun store path => store.scanned view path) ws.store := by
  have hNone : ∃ paths : List Text, ws.store =
      paths.foldl (fun store path => store.scanned view path) ws.store := ⟨[], rfl⟩
  unfold handle
  simp only [h, Bool.false_eq_true, if_false]
  split
  · exact hNone
  · split
    · exact hNone
    · split
      · unfold loaded load
        cases Survey.start view ws.root event.path with
        | error failure => exact hNone
        | ok survey => exact ⟨survey.files, rfl⟩
      · exact hNone
    · split
      · exact ⟨[event.path], rfl⟩
      · exact hNone

theorem root_handle (event : Event) : (ws.handle watches view event).1.root = ws.root := by
  unfold handle
  split
  · rfl
  · split
    · rfl
    · split
      · rfl
      · split
        · unfold loaded load
          cases Survey.start view ws.root event.path <;> rfl
        · rfl
      · split <;> rfl

/-! ## Events in order -/

theorem handleAll_cons (event : Event) (events : List Event) :
    ws.handleAll watches view (event :: events) =
      (ws.handle watches view event).1.handleAll (ws.handle watches view event).2 view events := rfl

theorem handleAll_append (events more : List Event) :
    ws.handleAll watches view (events ++ more) =
      (ws.handleAll watches view events).1.handleAll (ws.handleAll watches view events).2 view
        more := by
  simp [handleAll]

theorem root_handleAll (events : List Event) :
    (ws.handleAll watches view events).1.root = ws.root := by
  induction events generalizing ws watches with
  | nil => rfl
  | cons event events ih => rw [handleAll_cons, ih, root_handle]

section Run

variable (hHosts : view.disk.Hosts root)

include hHosts

theorem namedBy_handle (hRoot : ws.root = Path.ofNames root) (hNaming : naming.GivesPaths root)
    {n : Notice} (hLocal : IsLocal root n) (hNamed : watches.NamedBy naming) :
    (ws.handle watches view n.toEvent).2.NamedBy naming := by
  cases hGone : n.gone with
  | true =>
      rw [handle_of_gone hGone]
      exact hNamed
  | false =>
      rcases handle_cases hHosts.toIsPlain hRoot hLocal hGone with
        hSame | hScan | ⟨hIn, hAddress, hDir, hTaken⟩
      · rwa [hSame]
      · rwa [hScan]
      · rw [hTaken]
        exact namedBy_takeIn hHosts hRoot hIn hDir hNaming hNamed

/-- No event takes a watch away, and new ones are put where they are due. -/
theorem on_handle (hRoot : ws.root = Path.ofNames root) {n : Notice} (hLocal : IsLocal root n)
    (dir : Location) :
    (watches.On dir → (ws.handle watches view n.toEvent).2.On dir) ∧
      ((ws.handle watches view n.toEvent).2.On dir →
        watches.On dir ∨ Due root view.disk dir) := by
  cases hGone : n.gone with
  | true =>
      rw [handle_of_gone hGone]
      exact ⟨id, Or.inl⟩
  | false =>
      rcases handle_cases hHosts.toIsPlain hRoot hLocal hGone with
        hSame | hScan | ⟨hIn, hAddress, hDir, hTaken⟩
      · rw [hSame]
        exact ⟨id, Or.inl⟩
      · rw [hScan]
        exact ⟨id, Or.inl⟩
      · rw [hTaken, on_takeIn_iff hHosts hRoot hIn hDir]
        exact ⟨Or.inl, fun hEither => hEither.imp_right And.right⟩

/-- The creation of a directory brings watches to the directories below it. -/
theorem on_handle_of_creates (hRoot : ws.root = Path.ofNames root) {n : Notice}
    (hLocal : IsLocal root n) {dir : Location} (hCreates : Creates dir n)
    (hDue : Due root view.disk dir) : (ws.handle watches view n.toEvent).2.On dir := by
  obtain ⟨hSignals, hBelow⟩ := hCreates
  have hStays : n.gone = false := by rw [Notice.gone, hSignals]; rfl
  obtain ⟨hRootAbove, hNe⟩ := hLocal.strictlyBelow hStays
  have hIn := hDue.2.1.of_isPrefix hRootAbove hBelow
  have hDir := hHosts.directory_of_prefix hBelow hDue.1
  rw [handle_directory hHosts.toIsPlain hRoot hSignals hNe hIn (hDue.2.2.of_isPrefix hBelow) hDir,
    on_takeIn_iff hHosts hRoot hIn hDir]
  exact Or.inr ⟨hBelow, hDue⟩

/-- After events in order the watches are the old ones and those that creations
have brought. -/
theorem on_handleAll (hRoot : ws.root = Path.ofNames root) {ns : List Notice}
    (hLocal : ∀ n ∈ ns, IsLocal root n) (dir : Location) :
    ((watches.On dir ∨ Due root view.disk dir ∧ ∃ n ∈ ns, Creates dir n) →
        (ws.handleAll watches view (ns.map Notice.toEvent)).2.On dir) ∧
      ((ws.handleAll watches view (ns.map Notice.toEvent)).2.On dir →
        watches.On dir ∨ Due root view.disk dir) := by
  induction ns generalizing ws watches with
  | nil => exact ⟨fun hEither => hEither.elim id (by simp), Or.inl⟩
  | cons n ns ih =>
      have hFirst := hLocal n (by simp)
      obtain ⟨hKeeps, hAdds⟩ := @on_handle ws watches view root hHosts hRoot n hFirst dir
      obtain ⟨hReach, hOnly⟩ := @ih (ws.handle watches view n.toEvent).1
        (ws.handle watches view n.toEvent).2 ((root_handle _).trans hRoot)
        fun m hm => hLocal m (by simp [hm])
      rw [List.map_cons, handleAll_cons]
      constructor
      · rintro (hOn | ⟨hDue, m, hm, hCreates⟩)
        · exact hReach (Or.inl (hKeeps hOn))
        · rcases List.mem_cons.1 hm with rfl | hLater
          · exact hReach (Or.inl (on_handle_of_creates hHosts hRoot hFirst hCreates hDue))
          · exact hReach (Or.inr ⟨hDue, m, hLater, hCreates⟩)
      · intro hOn
        exact (hOnly hOn).elim hAdds Or.inr

theorem namedBy_handleAll (hRoot : ws.root = Path.ofNames root)
    (hNaming : naming.GivesPaths root) {ns : List Notice} (hLocal : ∀ n ∈ ns, IsLocal root n)
    (hNamed : watches.NamedBy naming) :
    (ws.handleAll watches view (ns.map Notice.toEvent)).2.NamedBy naming := by
  induction ns generalizing ws watches with
  | nil => exact hNamed
  | cons n ns ih =>
      rw [List.map_cons, handleAll_cons]
      exact ih ((root_handle _).trans hRoot) (fun m hm => hLocal m (by simp [hm]))
        (namedBy_handle hHosts hRoot hNaming (hLocal n (by simp)) hNamed)

end Run

section Documents

variable {file : Location} (hNames : ∀ n ∈ file, IsName n)
  (hPython : Path.isPython (Path.ofNames file) = true)

theorem closed_handle (hSound : ws.store.Sound) {path : Text}
    (hClosed : ws.store.isOpen path = false) (event : Event) :
    (ws.handle watches view event).1.store.Sound ∧
      (ws.handle watches view event).1.store.isOpen path = false := by
  have hSpares := spares_handle ws watches view event
  exact ⟨(hSpares hSound).1, (hSpares.isOpen hSound path).trans hClosed⟩

include hNames hPython

theorem get?_handle_of_gone (hSound : ws.store.Sound)
    (hClosed : ws.store.isOpen (Path.ofNames file) = false) {n : Notice} (hLocal : IsLocal root n)
    (hGone : n.gone = true) :
    (ws.handle watches view n.toEvent).1.store.get? (Path.ofNames file) =
      if n.loc <+: file then none else ws.store.get? (Path.ofNames file) := by
  rw [handle_of_gone hGone, get?_forget hSound hLocal.ne_nil hLocal.names hNames hPython]
  split
  · rw [Store.isOpen_eq_any] at hClosed
    rw [Option.filter_eq_none_iff]
    intro doc hDoc hOpen
    rw [hDoc] at hClosed
    exact absurd hOpen (by simpa using hClosed)
  · rfl

/-- An event that takes nothing away from a path keeps the disk's copy there. -/
theorem copy_handle (hSound : ws.store.Sound)
    (hClosed : ws.store.isOpen (Path.ofNames file) = false) {n : Notice} (hLocal : IsLocal root n)
    (hCopy : ws.store.get? (Path.ofNames file) = view.copy (Path.ofNames file))
    (hKept : view.copy (Path.ofNames file) = none ∨ ¬ (n.gone = true ∧ n.loc <+: file)) :
    (ws.handle watches view n.toEvent).1.store.get? (Path.ofNames file) =
      view.copy (Path.ofNames file) := by
  cases hGone : n.gone with
  | true =>
      rw [get?_handle_of_gone hNames hPython hSound hClosed hLocal hGone]
      split
      · next hAbove => exact (hKept.resolve_right fun hNot => hNot ⟨hGone, hAbove⟩).symm
      · exact hCopy
  | false =>
      obtain ⟨paths, hPaths⟩ := @handle_scans ws watches view n.toEvent hGone
      rw [hPaths, Store.get?_foldl_scanned hSound hClosed, hCopy]
      cases view.copy (Path.ofNames file) <;> simp

/-- Events that take nothing away from a path keep the disk's copy there. -/
theorem copy_handleAll (hSound : ws.store.Sound)
    (hClosed : ws.store.isOpen (Path.ofNames file) = false) {ns : List Notice}
    (hLocal : ∀ n ∈ ns, IsLocal root n)
    (hCopy : ws.store.get? (Path.ofNames file) = view.copy (Path.ofNames file))
    (hKept : view.copy (Path.ofNames file) = none ∨ ¬ ReportedGone file ns) :
    (ws.handleAll watches view (ns.map Notice.toEvent)).1.store.get? (Path.ofNames file) =
      view.copy (Path.ofNames file) := by
  induction ns generalizing ws watches with
  | nil => exact hCopy
  | cons n ns ih =>
      obtain ⟨hNextSound, hNextClosed⟩ :=
        @closed_handle ws watches view hSound _ hClosed n.toEvent
      have hFirst := @copy_handle ws watches view root file hNames hPython hSound hClosed n
        (hLocal n (by simp)) hCopy (hKept.imp_right fun hNot hBad => hNot ⟨n, by simp, hBad⟩)
      refine ih hNextSound hNextClosed (fun m hm => hLocal m (by simp [hm])) hFirst ?_
      exact hKept.imp_right fun hNot ⟨m, hm, hBad⟩ => hNot ⟨m, by simp [hm], hBad⟩

/-- After a report that it is gone, a path without a file has no closed
document. -/
theorem copy_handleAll_of_gone (hSound : ws.store.Sound)
    (hClosed : ws.store.isOpen (Path.ofNames file) = false) {ns : List Notice}
    (hLocal : ∀ n ∈ ns, IsLocal root n) (hNone : view.copy (Path.ofNames file) = none)
    (hGone : ReportedGone file ns) :
    (ws.handleAll watches view (ns.map Notice.toEvent)).1.store.get? (Path.ofNames file) =
      view.copy (Path.ofNames file) := by
  induction ns generalizing ws watches with
  | nil =>
      obtain ⟨n, hn, -⟩ := hGone
      exact absurd hn (by simp)
  | cons n ns ih =>
      obtain ⟨hNextSound, hNextClosed⟩ :=
        @closed_handle ws watches view hSound _ hClosed n.toEvent
      have hRest : ∀ m ∈ ns, IsLocal root m := fun m hm => hLocal m (by simp [hm])
      rw [List.map_cons, handleAll_cons]
      by_cases hHere : n.gone = true ∧ n.loc <+: file
      · have hDropped := @get?_handle_of_gone ws watches view root file hNames hPython hSound hClosed
          n (hLocal n (by simp)) hHere.1
        rw [if_pos hHere.2] at hDropped
        exact copy_handleAll hNames hPython hNextSound hNextClosed hRest (hDropped.trans hNone.symm)
          (Or.inl hNone)
      · refine ih hNextSound hNextClosed hRest ?_
        obtain ⟨m, hm, hBad⟩ := hGone
        rcases List.mem_cons.1 hm with rfl | hLater
        · exact absurd hBad hHere
        · exact ⟨m, hLater, hBad⟩

end Documents

/-- An announcement brings the disk's copy to a file of the workspace. -/
theorem copy_handle_of_renews (hHosts : view.disk.Hosts root)
    (hRoot : ws.root = Path.ofNames root) (hSound : ws.store.Sound)
    {dir : Location} {name content : Text}
    (hClosed : ws.store.isOpen (Path.ofNames (dir ++ [name])) = false)
    (hPython : Path.isPython (Path.ofNames (dir ++ [name])) = true)
    (hIn : InWorkspace root dir) (hAddress : Disk.Addressable (dir ++ [name]))
    (hFile : view.disk.get? (dir ++ [name]) = some (.file content)) {n : Notice}
    (hLocal : IsLocal root n) (hRenews : Renews (dir ++ [name]) n) :
    (ws.handle watches view n.toEvent).1.store.get? (Path.ofNames (dir ++ [name])) =
      view.copy (Path.ofNames (dir ++ [name])) := by
  have hCopy := View.copy_of_file (hHosts.direct _) hAddress hFile
  have hHere : n.loc = dir ++ [name] →
      (n.signals = { create := true } ∨ n.signals = { write := true }) →
        (ws.handle watches view n.toEvent).1.store.get? (Path.ofNames (dir ++ [name])) =
          view.copy (Path.ofNames (dir ++ [name])) := by
    intro hLoc hSignals
    rw [← hLoc] at hAddress hFile hPython hClosed hCopy ⊢
    rw [handle_file hHosts.toIsPlain hSignals hAddress hFile hPython, hCopy]
    show (ws.store.scanned view (Path.ofNames n.loc)).get? _ = _
    rw [Store.get?_scanned_self hClosed, hCopy]
    rfl
  rcases hRenews with ⟨hCreate, hAbove⟩ | ⟨hWrite, hLoc⟩
  · rcases List.prefix_concat_iff.1 hAbove with hLoc | hDirAbove
    · exact hHere hLoc (Or.inl hCreate)
    · have hStays : n.gone = false := by rw [Notice.gone, hCreate]; rfl
      obtain ⟨hRootAbove, hNe⟩ := hLocal.strictlyBelow hStays
      have hLocIn := hIn.of_isPrefix hRootAbove hDirAbove
      have hDir := hHosts.directory_of_prefix hDirAbove (hHosts.directory_of_concat hFile)
      rw [handle_directory hHosts.toIsPlain hRoot hCreate hNe hLocIn (hAddress.of_isPrefix hAbove)
        hDir, hCopy]
      exact get?_takeIn hHosts hRoot hLocIn hSound hClosed hDirAbove hIn hFile hAddress hPython
  · exact hHere hLoc (Or.inr hWrite)

/-- The last announcement scans the file, and nothing after it takes it away. -/
theorem copy_handleAll_of_standing (hHosts : view.disk.Hosts root)
    (hRoot : ws.root = Path.ofNames root) (hSound : ws.store.Sound) {dir : Location}
    {name content : Text} (hClosed : ws.store.isOpen (Path.ofNames (dir ++ [name])) = false)
    (hNames : ∀ n ∈ dir ++ [name], IsName n)
    (hPython : Path.isPython (Path.ofNames (dir ++ [name])) = true) (hIn : InWorkspace root dir)
    (hAddress : Disk.Addressable (dir ++ [name]))
    (hFile : view.disk.get? (dir ++ [name]) = some (.file content)) {ns : List Notice}
    (hLocal : ∀ n ∈ ns, IsLocal root n)
    (hSaid : Standing (Renews (dir ++ [name])) (dir ++ [name]) ns) :
    (ws.handleAll watches view (ns.map Notice.toEvent)).1.store.get?
        (Path.ofNames (dir ++ [name])) = view.copy (Path.ofNames (dir ++ [name])) := by
  obtain ⟨front, n, later, rfl, hRenews, hLater⟩ := hSaid
  have hFront := spares_handleAll ws watches view (front.map Notice.toEvent)
  have hFrontSound := (hFront hSound).1
  have hFrontClosed := (hFront.isOpen hSound _).trans hClosed
  rw [List.map_append, List.map_cons, handleAll_append, handleAll_cons]
  obtain ⟨hNextSound, hNextClosed⟩ := closed_handle hFrontSound hFrontClosed n.toEvent
  refine copy_handleAll hNames hPython hNextSound hNextClosed
    (fun m hm => hLocal m (by simp [hm])) ?_ (Or.inr ?_)
  · exact copy_handle_of_renews hHosts ((root_handleAll _).trans hRoot) hFrontSound hFrontClosed
      hPython hIn hAddress hFile (hLocal n (by simp)) hRenews
  · rintro ⟨m, hm, hGone, hAbove⟩
    exact (hLater m hm hGone).1 hAbove

end Workspace

end DottedNames
