import DottedNames.Proofs.Reaction

/-!
# Workspaces that mirror the disk

A workspace is current when its watches sit where they are due and every closed
Python document of it is what the disk has. `IsCurrent` is kept by everything
that happens to a watched workspace: documents are opened, closed and looked at,
and the watcher reacts to edits of the disk. A load from the root makes an empty
workspace current.

A workspace whose root is a file has no watches and nothing inside, and stays
so.

## Main results

* `exact_react`, `mirrors_react` — what a reaction to any edits preserves.
* `IsCurrent.touched`, `IsCurrent.react` — a current workspace stays current.
* `isCurrent_of_start` — a started watcher makes its workspace current.
-/

namespace DottedNames

/-- Every closed Python document of the workspace is what the disk has. -/
def Mirrors (root : Location) (view : View) (store : Store) : Prop :=
  ∀ dir name, InWorkspace root dir → (∀ n ∈ dir ++ [name], IsName n) →
    Path.isPython (Path.ofNames (dir ++ [name])) = true →
      store.isOpen (Path.ofNames (dir ++ [name])) = false →
        store.get? (Path.ofNames (dir ++ [name])) = view.copy (Path.ofNames (dir ++ [name]))

namespace Workspace

variable {ws : Workspace} {watches : Watches} {view before : View} {naming : Naming}
  {root : Location} {c : Changed}

section React

variable (hNaming : naming.GivesPaths root) (hRoot : ws.root = Path.ofNames root)
  (hNamed : watches.NamedBy naming) (hExact : watches.Exact root before.disk)
  (hTracked : Tracked root before.disk watches c) (hDisk : view.disk = c.disk)

include hExact hTracked in
theorem isLocal_of_heard {n : Notice} (h : n ∈ watches.heard c.notices) : IsLocal root n := by
  refine ⟨hTracked.proper n (Watches.mem_of_mem_heard h), fun hStays => ?_⟩
  rcases Watches.on_of_mem_heard h with hParent | ⟨-, hGone⟩
  · exact ((hExact _).1 hParent).2.1
  · exact absurd hGone (by simp [hStays])

include hNamed hTracked in
theorem react_eq :
    ws.react watches view c.notices naming =
      ws.handleAll (watches.left c.notices) view
        ((watches.heard c.notices).map Notice.toEvent) := by
  rw [react, Watches.eventsOf_eq hNamed hTracked.proper]

include hNaming hRoot hNamed hExact hTracked hDisk

/-- After a reaction the watches sit where they are due. -/
theorem exact_react :
    (ws.react watches view c.notices naming).2.NamedBy naming ∧
      (ws.react watches view c.notices naming).2.Exact root view.disk := by
  have hHosts : view.disk.Hosts root := hDisk ▸ hTracked.hosts
  have hLocal : ∀ n ∈ watches.heard c.notices, IsLocal root n :=
    fun n hn => isLocal_of_heard hExact hTracked hn
  rw [react_eq hNamed hTracked]
  refine ⟨namedBy_handleAll hHosts hRoot hNaming hLocal (hNamed.left c.notices), fun dir => ?_⟩
  obtain ⟨hReach, hOnly⟩ :=
    @on_handleAll ws (watches.left c.notices) view root hHosts hRoot _ hLocal dir
  constructor
  · intro hOn
    rcases hOnly hOn with hLeft | hDue
    · obtain ⟨-, hIn, hAddress⟩ := (hExact dir).1 (Watches.on_left_iff.1 hLeft).1
      exact ⟨hDisk ▸ hTracked.sound dir hLeft, hIn, hAddress⟩
    · exact hDue
  · intro hDue
    rcases hTracked.directories dir hDue.2.1 hDue.2.2 (hDisk ▸ hDue.1) with hLeft | hSaid
    · exact hReach (Or.inl hLeft)
    · obtain ⟨front, n, later, hSplit, hCreates, -⟩ := hSaid
      exact hReach (Or.inr ⟨hDue, n, by simp [hSplit], hCreates⟩)

omit hNaming in
/-- After a reaction the store has what the disk has. -/
theorem mirrors_react (hSound : ws.store.Sound) (hMirrors : Mirrors root before ws.store)
    (hBefore : before.disk.IsPlain) :
    Mirrors root view (ws.react watches view c.notices naming).1.store := by
  intro dir name hIn hNames hPython hClosed
  have hHosts : view.disk.Hosts root := hDisk ▸ hTracked.hosts
  have hLocal : ∀ n ∈ watches.heard c.notices, IsLocal root n :=
    fun n hn => isLocal_of_heard hExact hTracked hn
  have hSpares := spares_react ws watches view c.notices naming
  have hWasClosed : ws.store.isOpen (Path.ofNames (dir ++ [name])) = false :=
    (hSpares.isOpen hSound _).symm.trans hClosed
  have hHeld := hMirrors dir name hIn hNames hPython hWasClosed
  rw [react_eq hNamed hTracked]
  cases hCopy : view.copy (Path.ofNames (dir ++ [name])) with
  | some doc =>
      obtain ⟨hAddress, content, hFile⟩ := View.file_of_copy (hHosts.direct _) hNames hCopy
      rw [← hCopy]
      rcases hTracked.files _ content ⟨dir, name, rfl, hIn, hAddress⟩ (hDisk ▸ hFile) with
        hSaid | ⟨hSame, hNotGone⟩
      · exact copy_handleAll_of_standing hHosts hRoot hSound hWasClosed hNames hPython hIn hAddress
          hFile hLocal hSaid
      · refine copy_handleAll hNames hPython hSound hWasClosed hLocal ?_ (Or.inr hNotGone)
        rw [hHeld, View.copy_of_file (hBefore.direct _) hAddress hSame,
          View.copy_of_file (hHosts.direct _) hAddress hFile]
  | none =>
      rw [← hCopy]
      cases hOld : before.copy (Path.ofNames (dir ++ [name])) with
      | none =>
          refine copy_handleAll hNames hPython hSound hWasClosed hLocal ?_ (Or.inl hCopy)
          rw [hHeld, hOld, hCopy]
      | some doc =>
          obtain ⟨hAddress, old, hFile⟩ := View.file_of_copy (hBefore.direct _) hNames hOld
          have hLost := hTracked.lost _ old ⟨dir, name, rfl, hIn, hAddress⟩ hFile
            fun content hBad => by
              rw [View.copy_of_file (hHosts.direct _) hAddress (hDisk ▸ hBad)] at hCopy
              exact absurd hCopy (by simp)
          exact copy_handleAll_of_gone hNames hPython hSound hWasClosed hLocal hCopy hLost

end React

end Workspace

/-! ## Documents that are opened, closed and looked at -/

/-- What a request about documents can do to a store. -/
inductive Touched (view : View) (store : Store) : Store → Prop
  | same : Touched view store store
  | opened (path content : Text) : Touched view store (store.openDocument path content)
  | closed (path : Text) : Touched view store (store.close view path)
  | looked (path : Text) : Touched view store (store.linesOf view path).2

theorem Touched.sound {view : View} {store store' : Store} (h : Touched view store store')
    (hSound : store.Sound) : store'.Sound := by
  cases h with
  | same => exact hSound
  | opened path content => exact hSound.openDocument path content
  | closed path => exact hSound.close view path
  | looked path => exact hSound.linesOf view path

/-- An operation that leaves other paths alone and decides its own by the disk
keeps the store a mirror. -/
theorem mirrors_of_local {root : Location} {view : View} {store store' : Store} (path : Text)
    (h : Mirrors root view store) (hOthers : ∀ other, other ≠ path → store'.get? other = store.get? other)
    (hHere : store'.isOpen path = false → store'.get? path = view.copy path) :
    Mirrors root view store' := by
  intro dir name hIn hNames hPython hClosed
  by_cases hSame : Path.ofNames (dir ++ [name]) = path
  · rw [hSame] at hClosed ⊢
    exact hHere hClosed
  · have hGet := hOthers _ hSame
    rw [Store.isOpen_eq_any, hGet, ← Store.isOpen_eq_any] at hClosed
    rw [hGet]
    exact h dir name hIn hNames hPython hClosed

theorem Touched.mirrors {root : Location} {view : View} {store store' : Store}
    (hTouched : Touched view store store') (hSound : store.Sound) (h : Mirrors root view store) :
    Mirrors root view store' := by
  cases hTouched with
  | same => exact h
  | opened path content =>
      refine mirrors_of_local path h (fun other hNe => ?_) fun hClosed => ?_
      · rw [Store.get?_openDocument, if_neg hNe]
      · rw [Store.isOpen_eq_any, Store.get?_openDocument, if_pos rfl] at hClosed
        exact absurd hClosed (by simp)
  | closed path =>
      refine mirrors_of_local path h (fun other hNe => ?_) fun _ => ?_
      · rw [Store.get?_close hSound, if_neg hNe]
      · exact Store.get?_close_self hSound
  | looked path =>
      unfold Store.linesOf
      cases hHeld : store.get? path with
      | some doc => exact h
      | none =>
          refine mirrors_of_local path h (fun other hNe => ?_) fun _ => ?_
          · exact Store.get?_scanned_of_ne store view hNe
          · have hClosed : store.isOpen path = false := by
              rw [Store.isOpen_eq_any, hHeld]
              rfl
            show (store.scanned view path).get? path = _
            rw [Store.get?_scanned_self hClosed, hHeld, Option.or_none]

/-! ## Current workspaces -/

/-- Either the root is a directory and the watches sit where they are due, or it
is a file and there is nothing to watch. -/
def Watching (root : Location) (disk : Disk) (watches : Watches) (naming : Naming) : Prop :=
  disk.get? root = some .directory ∧ watches.NamedBy naming ∧ watches.Exact root disk ∨
    (∃ content, disk.get? root = some (.file content)) ∧ watches = []

/-- The workspace and its watches are up to date with the disk. -/
structure IsCurrent (root : Location) (view : View) (ws : Workspace) (watches : Watches)
    (naming : Naming) : Prop where
  home : ws.root = Path.ofNames root
  sound : ws.store.Sound
  plain : view.disk.IsPlain
  mirrors : Mirrors root view ws.store
  watched : Watching root view.disk watches naming

namespace IsCurrent

variable {root : Location} {view : View} {ws : Workspace} {watches : Watches} {naming : Naming}

theorem touched (h : IsCurrent root view ws watches naming) {store : Store}
    (hTouched : Touched view ws.store store) :
    IsCurrent root view { ws with store } watches naming where
  home := h.home
  sound := hTouched.sound h.sound
  plain := h.plain
  mirrors := hTouched.mirrors h.sound h.mirrors
  watched := h.watched

/-- Without watches nothing is heard. -/
theorem react_nil (ws : Workspace) (view : View) (notices : List Notice) (naming : Naming) :
    ws.react [] view notices naming = (ws, []) := by
  rw [Workspace.react, Watches.eventsOf_nil]
  rfl

/-- A watched workspace stays current when the watcher reacts to edits. -/
theorem react (h : IsCurrent root view ws watches naming) (hNaming : naming.GivesPaths root)
    {c : Changed} (hEdits : Edits root { disk := view.disk } c) {after : View}
    (hDisk : after.disk = c.disk) :
    IsCurrent root after (ws.react watches after c.notices naming).1
      (ws.react watches after c.notices naming).2 naming := by
  have hPlain : after.disk.IsPlain := hDisk ▸ Edits.isPlain hEdits h.plain
  have hSound := (Workspace.spares_react ws watches after c.notices naming h.sound).1
  have hHome : (ws.react watches after c.notices naming).1.root = Path.ofNames root :=
    (Workspace.root_handleAll _).trans h.home
  rcases h.watched with ⟨hDirectory, hNamed, hExact⟩ | ⟨⟨content, hFile⟩, rfl⟩
  · have hTracked := Tracked.of_edits ⟨h.plain, hDirectory⟩ hExact hEdits
    refine ⟨hHome, hSound, hPlain, ?_, Or.inl ⟨hDisk ▸ hTracked.hosts.home, ?_⟩⟩
    · exact Workspace.mirrors_react h.home hNamed hExact hTracked hDisk h.sound h.mirrors h.plain
    · exact Workspace.exact_react hNaming h.home hNamed hExact hTracked hDisk
  · obtain ⟨entry, hEntry, hKind⟩ := Edits.root_stays hEdits h.plain hFile
    rw [← hDisk] at hEntry
    have hStill : ∃ content, after.disk.get? root = some (.file content) := by
      cases entry with
      | directory => exact absurd (hKind.1 rfl) (by simp)
      | link target => exact absurd hEntry hPlain.not_link
      | file content => exact ⟨content, hEntry⟩
    rw [react_nil]
    refine ⟨h.home, h.sound, hPlain, ?_, Or.inr ⟨hStill, rfl⟩⟩
    intro dir name hIn hNames hPython hClosed
    obtain ⟨now, hNow⟩ := hStill
    rw [h.mirrors dir name hIn hNames hPython hClosed, View.copy_below_file h.plain hFile hIn hNames,
      View.copy_below_file hPlain hNow hIn hNames]

end IsCurrent

/-! ## The start -/

section Start

variable {root : Location} {view : View} {ws ws' : Workspace} {watcher : Watcher}
  {naming : Naming}

theorem absorb_of_start (hStart : Watcher.start {} ws view = .ok (ws', watcher)) :
    ∃ survey, Survey.start view ws.root ws.root = .ok survey ∧
      ws.absorb [] view survey = (ws', watcher.watches) := by
  unfold Watcher.start Workspace.load at hStart
  cases hSurvey : Survey.start view ws.root ws.root with
  | error failure => simp [hSurvey, Except.map] at hStart
  | ok survey =>
      refine ⟨survey, rfl, ?_⟩
      simp only [hSurvey, Except.map, Except.ok.injEq, Prod.mk.injEq] at hStart
      obtain ⟨hWorkspace, rfl⟩ := hStart
      exact Prod.ext hWorkspace rfl

/-- Into an empty store files only come from the disk. -/
theorem mirrors_absorb (hEmpty : ws.store = {}) (survey : Survey)
    (hFiles : ∀ dir name doc, InWorkspace root dir → (∀ n ∈ dir ++ [name], IsName n) →
      Path.isPython (Path.ofNames (dir ++ [name])) = true →
        view.copy (Path.ofNames (dir ++ [name])) = some doc →
          Path.ofNames (dir ++ [name]) ∈ survey.files) :
    Mirrors root view (ws.absorb [] view survey).1.store := by
  intro dir name hIn hNames hPython _
  show (List.foldl _ _ _ : Store).get? _ = _
  rw [hEmpty, Store.get?_foldl_scanned Store.sound_empty rfl, Store.get?_empty]
  cases hCopy : view.copy (Path.ofNames (dir ++ [name])) with
  | none => simp
  | some doc => rw [if_pos (hFiles dir name doc hIn hNames hPython hCopy), Option.some_or]

/-- A started watcher makes its empty workspace current. -/
theorem isCurrent_of_start (hNaming : naming.GivesPaths root) (hPlain : view.disk.IsPlain)
    (hNames : ∀ n ∈ root, IsName n) (hHome : ws.root = Path.ofNames root) (hEmpty : ws.store = {})
    (hStart : Watcher.start {} ws view = .ok (ws', watcher)) :
    IsCurrent root view ws' watcher.watches naming := by
  obtain ⟨survey, hSurvey, hAbsorb⟩ := absorb_of_start hStart
  suffices h : IsCurrent root view (ws.absorb [] view survey).1 (ws.absorb [] view survey).2
      naming by
    rwa [hAbsorb] at h
  have hSound : (ws.absorb [] view survey).1.store.Sound :=
    (Workspace.spares_absorb ws [] view survey (hEmpty ▸ Store.sound_empty)).1
  cases hInspect : view.inspect (Path.ofNames root) with
  | error fault => simp [Survey.start, hHome, hInspect] at hSurvey
  | ok entry =>
      obtain ⟨hAddress, hRoot⟩ := (View.entry_ofNames_iff (hPlain.direct _) _ hNames).1 hInspect
      cases entry with
      | link target => exact absurd hRoot hPlain.not_link
      | directory =>
          have hHosts : view.disk.Hosts root := ⟨hPlain, hRoot⟩
          have hSelf := InWorkspace.self root
          rw [hHome, Survey.start_ofNames hPlain hSelf hRoot hAddress] at hSurvey
          obtain rfl := Except.ok.inj hSurvey
          have hTaken : ws.absorb [] view (Survey.ofDirectory view (Path.ofNames root)
              (view.disk.depth + 1) (Path.ofNames root)) = ws.takeIn [] view root := by
            rw [Workspace.takeIn, hHome]
          refine ⟨hHome, hSound, hPlain, mirrors_absorb hEmpty _ ?_, Or.inl ⟨hRoot, ?_, ?_⟩⟩
          · intro dir name doc hIn hFileNames hPython hCopy
            obtain ⟨hFileAddress, content, hFile⟩ :=
              View.file_of_copy (hPlain.direct _) hFileNames hCopy
            obtain ⟨below, rfl, hSkip⟩ := hIn
            exact Survey.files_cover hPlain hNames (List.prefix_refl root) (by omega) hSkip hFile
              hFileAddress hPython
          · rw [hTaken]
            exact Workspace.namedBy_takeIn hHosts hHome hSelf hRoot hNaming
              fun w hw => absurd hw (by simp)
          · intro dir
            rw [hTaken, Workspace.on_takeIn_iff hHosts hHome hSelf hRoot]
            constructor
            · rintro (⟨w, hw, -⟩ | ⟨-, hDue⟩)
              · exact absurd hw (by simp)
              · exact hDue
            · intro hDue
              exact Or.inr ⟨hDue.2.1.isPrefix, hDue⟩
      | file content =>
          simp only [Survey.start, hHome, hInspect, Except.ok.injEq] at hSurvey
          subst hSurvey
          refine ⟨hHome, hSound, hPlain, mirrors_absorb hEmpty _ ?_, Or.inr ⟨⟨content, hRoot⟩, rfl⟩⟩
          intro dir name doc hIn hFileNames _ hCopy
          rw [View.copy_below_file hPlain hRoot hIn hFileNames] at hCopy
          exact absurd hCopy (by simp)

end Start

end DottedNames
