import DottedNames.Proofs.Mirror
import DottedNames.Server.State

/-!
# A server at work

A server that watches its workspace is at work while the editor sends requests
about documents and the disk changes. The changes of one step are all on the
disk before the watcher hears of them.

`Live` is what holds all along: the session is open, one watcher feeds its
store, its watches sit where they are due, and every closed Python document of
the workspace is what the disk has. A request about documents touches the store
in one of three ways, each of which keeps that; a step of the disk keeps it by
what is known of reactions. A workspace whose root is a file has no watches and
nothing inside, and stays so.

Symbolic links are left out: no step makes one. Nor does a step take the root
away. Of the notifier it is taken for granted that it calls the entries of
watched directories by their paths.

## Main results

* `Live.request`, `Live.disk` — what one step preserves.
* `live_start` — what a started watcher begins with.
* `closed_documents_are_the_disk` — after any run, under every Python path of
  the workspace, the store has the closed document that the disk's file makes.
-/

namespace DottedNames

namespace Server

/-- Whether a method leaves the session and its watcher as they are. -/
def Method.keepsSession : Method → Bool
  | .startSession | .sessionReady | .shutdown => false
  | _ => true

/-- Something that happens to a server at work. -/
inductive Happening where
  /-- The disk goes through changes, of which the server hears afterwards. -/
  | disk (changes : List Change)
  | request (method : Text) (params : Option Json)

/-- What may happen: requests that keep the session, and changes that make no
link and leave the root in its place. -/
def Happening.Allowed (root : Location) : Happening → Prop
  | .disk changes => ∀ change ∈ changes, change.Spares root
  | .request method _ => ∀ m, Method.ofName? method = some m → m.keepsSession = true

/-- A server with the disk it sees and the notifier it hears. -/
structure Site where
  view : View
  state : State
  /-- What the notifier calls the entries of watched directories. -/
  naming : Naming := .bySlash

namespace Site

/-- The server after one thing has happened. -/
def step (site : Site) : Happening → Site
  | .disk changes =>
    let changed := site.view.disk.apply changes
    let view := { site.view with disk := changed.disk }
    { site with view, state := site.state.observe view changed.notices site.naming }
  | .request method params =>
    { site with state := (site.state.handle site.view method params).2 }

/-- The notifier is the same all along. -/
@[simp] theorem naming_step (site : Site) (x : Happening) : (site.step x).naming = site.naming := by
  cases x <;> rfl

/-- The server after some things have happened in order. -/
def run (site : Site) (happenings : List Happening) : Site := happenings.foldl step site

end Site

/-- The session is open, and its one watcher keeps the workspace current. -/
structure Live (root : Location) (site : Site) (ws : Workspace) (watches : Watches) : Prop where
  initialized : site.state.initialized = true
  workspace : site.state.workspace = some ws
  recorded : site.state.recorded = .present watches
  abandoned : site.state.abandoned = []
  current : IsCurrent root site.view ws watches site.naming

/-! ## Requests -/

namespace State

variable {s : State} {view : View} {ws : Workspace}

/-- The state differs at most in its trace and in the store of its workspace,
which was touched as a request about documents does. -/
def Keeps (view : View) (ws : Workspace) (s next : State) : Prop :=
  next.initialized = s.initialized ∧ next.recorded = s.recorded ∧ next.abandoned = s.abandoned ∧
    ∃ store, Touched view ws.store store ∧ next.workspace = some { ws with store }

theorem keeps_self (hWorkspace : s.workspace = some ws) : Keeps view ws s s :=
  ⟨rfl, rfl, rfl, ws.store, .same, hWorkspace⟩

theorem keeps_openDocument (hWorkspace : s.workspace = some ws) (uri content : Text) :
    Keeps view ws s (s.openDocument uri content) := by
  unfold openDocument
  split
  · next path _ =>
      exact ⟨rfl, rfl, rfl, _, .opened path content, by simp [updateStore, hWorkspace]⟩
  · exact keeps_self hWorkspace

theorem keeps_closeDocument (hWorkspace : s.workspace = some ws) (uri : Text) :
    Keeps view ws s (s.closeDocument view uri) := by
  unfold closeDocument
  split
  · next path _ => exact ⟨rfl, rfl, rfl, _, .closed path, by simp [updateStore, hWorkspace]⟩
  · exact keeps_self hWorkspace

theorem keeps_elementAt (hWorkspace : s.workspace = some ws) (path : Text) (line : Int64) :
    Keeps view ws s (s.elementAt view path line).2 := by
  unfold elementAt
  rw [hWorkspace]
  exact ⟨rfl, rfl, rfl, _, .looked path, rfl⟩

theorem keeps_hover (hWorkspace : s.workspace = some ws) (uri : Text) (line : UInt32) :
    Keeps view ws s (s.hover view uri line).2 := by
  unfold hover
  split
  · exact keeps_self hWorkspace
  · next path _ =>
      have hKeeps : Keeps view ws s (s.elementAt view path (Int64.ofNat line.toNat)).2 :=
        keeps_elementAt hWorkspace path _
      cases hElement : s.elementAt view path (Int64.ofNat line.toNat) with
      | mk element next =>
          rw [hElement] at hKeeps
          cases element with
          | none => exact hKeeps
          | some e => exact hKeeps

theorem keeps_executeCommand (hWorkspace : s.workspace = some ws) (name : Text)
    (arguments : List Argument) :
    Keeps view ws s (s.executeCommand view name arguments).2 := by
  unfold executeCommand
  split
  · exact keeps_self hWorkspace
  · next command _ =>
      split
      · exact keeps_self hWorkspace
      · next path line _ =>
          unfold runCommand
          split
          · exact keeps_self hWorkspace
          · have hKeeps : Keeps view ws s (s.elementAt view path line).2 :=
              keeps_elementAt hWorkspace path line
            cases hElement : s.elementAt view path line with
            | mk element next =>
                rw [hElement] at hKeeps
                cases element with
                | none => exact hKeeps
                | some e => exact hKeeps

/-- A request of a method that keeps the session. -/
theorem keeps_serve (hWorkspace : s.workspace = some ws) {method : Method}
    (hMethod : method.keepsSession = true) (params : Json) :
    Keeps view ws s (s.serve view (Request.ofParams method params)).2 := by
  cases method with
  | startSession => exact absurd hMethod (by decide)
  | sessionReady => exact absurd hMethod (by decide)
  | shutdown => exact absurd hMethod (by decide)
  | setTrace => exact ⟨rfl, rfl, rfl, ws.store, .same, hWorkspace⟩
  | didOpen => exact keeps_openDocument hWorkspace _ _
  | didChange =>
      simp only [Request.ofParams]
      cases (itemsAt ["contentChanges"] params).getLast?.bind wholeContent? with
      | none => exact keeps_self hWorkspace
      | some content => exact keeps_openDocument hWorkspace _ content
  | didClose => exact keeps_closeDocument hWorkspace _
  | didSave =>
      simp only [Request.ofParams]
      cases optionalTextAt ["text"] params with
      | none => exact keeps_self hWorkspace
      | some content => exact keeps_openDocument hWorkspace _ content
  | hover => exact keeps_hover hWorkspace _ _
  | codeAction => exact keeps_self hWorkspace
  | executeCommand => exact keeps_executeCommand hWorkspace _ _

theorem keeps_handle (hWorkspace : s.workspace = some ws) {method : Text}
    (hMethod : ∀ m, Method.ofName? method = some m → m.keepsSession = true)
    (params : Option Json) : Keeps view ws s (s.handle view method params).2 := by
  unfold handle
  split
  · exact keeps_self hWorkspace
  · cases hRead : Request.read method params with
    | error rejection => cases rejection <;> exact keeps_self hWorkspace
    | ok request =>
        unfold Request.read at hRead
        split at hRead
        · exact absurd hRead (by simp)
        · next hShutdown => exact absurd (hMethod _ hShutdown) (by decide)
        · next m hOther hName =>
            cases params with
            | none => exact absurd hRead (by simp)
            | some params =>
                simp only at hRead
                split at hRead
                · obtain rfl := Except.ok.inj hRead
                  exact keeps_serve hWorkspace (hMethod m hName) params
                · exact absurd hRead (by simp)

end State

namespace Live

variable {root : Location} {site : Site} {ws : Workspace} {watches : Watches}

/-- A request that keeps the session keeps the server live. -/
theorem request (h : Live root site ws watches) {method : Text}
    (hMethod : ∀ m, Method.ofName? method = some m → m.keepsSession = true)
    (params : Option Json) :
    ∃ ws', Live root (site.step (.request method params)) ws' watches := by
  have hKeeps : State.Keeps site.view ws site.state (site.state.handle site.view method params).2 :=
    State.keeps_handle h.workspace hMethod params
  obtain ⟨hInitialized, hRecorded, hAbandoned, store, hTouched, hWorkspace⟩ := hKeeps
  exact ⟨{ ws with store }, hInitialized.trans h.initialized, hWorkspace,
    hRecorded.trans h.recorded, hAbandoned.trans h.abandoned, h.current.touched hTouched⟩

/-- With one watcher on record and none besides, a change of the disk is one
reaction. -/
theorem observe_eq (h : Live root site ws watches) (view : View) (notices : List Notice)
    (naming : Naming) :
    site.state.observe view notices naming =
      { site.state with
        workspace := some (ws.react watches view notices naming).1
        recorded := .present (ws.react watches view notices naming).2
        abandoned := [] } := by
  simp [State.observe, h.workspace, h.recorded, h.abandoned]

/-- Changes of the disk keep the server live. -/
theorem disk (h : Live root site ws watches) (hNaming : site.naming.GivesPaths root)
    {changes : List Change} (hChanges : ∀ change ∈ changes, change.Spares root) :
    ∃ ws' watches', Live root (site.step (.disk changes)) ws' watches' := by
  have hEdits := Disk.edits_apply h.current.plain hChanges
  have hCurrent := fun after => @IsCurrent.react _ _ _ _ _ h.current hNaming _ hEdits after
  have hState := h.observe_eq { site.view with disk := (site.view.disk.apply changes).disk }
    (site.view.disk.apply changes).notices site.naming
  refine ⟨_, _, ?_, ?_, ?_, ?_, hCurrent _ rfl⟩
  · exact (congrArg State.initialized hState).trans h.initialized
  · exact congrArg State.workspace hState
  · exact congrArg State.recorded hState
  · exact congrArg State.abandoned hState

/-- Whatever may happen keeps the server live. -/
theorem step (h : Live root site ws watches) (hNaming : site.naming.GivesPaths root)
    {happening : Happening} (hAllowed : happening.Allowed root) :
    ∃ ws' watches', Live root (site.step happening) ws' watches' := by
  cases happening with
  | disk changes => exact h.disk hNaming hAllowed
  | request method params =>
      obtain ⟨ws', hLive⟩ := h.request hAllowed params
      exact ⟨ws', watches, hLive⟩

theorem run (h : Live root site ws watches) (hNaming : site.naming.GivesPaths root)
    {happenings : List Happening} (hAllowed : ∀ happening ∈ happenings, happening.Allowed root) :
    ∃ ws' watches', Live root (site.run happenings) ws' watches' := by
  induction happenings generalizing site ws watches with
  | nil => exact ⟨ws, watches, h⟩
  | cons happening happenings ih =>
      obtain ⟨next, nextWatches, hNext⟩ := h.step hNaming (hAllowed happening (by simp))
      have hSame : (site.step happening).naming.GivesPaths root := by
        rwa [Site.naming_step]
      exact ih hNext hSame fun later hLater => hAllowed later (by simp [hLater])

end Live

/-! ## The start -/

/-- A new server after the two requests that open a session and start its
watcher. -/
def started (version : Text) (canNotify : Bool) (view : View) (params ready : Option Json) : State :=
  let opened := (State.handle { version, canNotify } view (text "initialize") params).2
  (opened.handle view (text "initialized") ready).2

section Start

variable {version : Text} {canNotify : Bool} {view : View} {params ready : Option Json}

/-- The first request opens a session or leaves the server new. -/
theorem opened_cases (s : State) (view : View) (params : Option Json) :
    (s.handle view (text "initialize") params).2 = s ∨
      ∃ rootPath rootUri, (s.handle view (text "initialize") params).2 =
        s.startSession view rootPath rootUri := by
  have hName : Method.ofName? (text "initialize") = some .startSession := by decide
  unfold State.handle Request.read
  rw [hName]
  cases params with
  | none => exact Or.inl (by simp)
  | some params =>
      by_cases hFits : Method.startSession.shape.fits params = true
      · refine Or.inr ⟨optionalTextAt ["rootPath"] params, optionalTextAt ["rootUri"] params, ?_⟩
        simp [hFits, Request.ofParams, State.serve]
      · exact Or.inl (by simp [hFits])

/-- The second request begins watching or leaves the server as it is. -/
theorem ready_cases (s : State) (view : View) (ready : Option Json) :
    (s.handle view (text "initialized") ready).2 = s ∨
      s.initialized = true ∧
        (s.handle view (text "initialized") ready).2 = s.beginWatching view := by
  have hName : Method.ofName? (text "initialized") = some .sessionReady := by decide
  unfold State.handle Request.read
  rw [hName]
  cases hOpen : s.initialized with
  | false => exact Or.inl (by simp)
  | true =>
      cases ready with
      | none => exact Or.inl (by simp)
      | some ready =>
          by_cases hFits : Method.sessionReady.shape.fits ready = true
          · exact Or.inr ⟨rfl, by simp [hFits, Request.ofParams, State.serve]⟩
          · exact Or.inl (by simp [hFits])

/-- A server that watches has opened a session, and its watcher has started on
the session's empty workspace. -/
theorem started_of_isWatching
    (hWatching : (started version canNotify view params ready).isWatching = true) :
    ∃ rootPath rootUri ws watcher,
      Watcher.start {} { root := Path.absolute view.current (State.sessionRoot rootPath rootUri) }
          view = .ok (ws, watcher) ∧
        started version canNotify view params ready =
          { version, canNotify, initialized := true, workspace := some ws,
            recorded := .present watcher.watches } := by
  unfold started at hWatching ⊢
  rcases opened_cases { version, canNotify } view params with
    hOpened | ⟨rootPath, rootUri, hOpened⟩
  · rw [hOpened] at hWatching
    rcases ready_cases { version, canNotify } view ready with
      hReady | ⟨hInitialized, -⟩
    · rw [hReady] at hWatching
      exact absurd hWatching (by simp [State.isWatching])
    · exact absurd hInitialized (by simp)
  · rw [hOpened] at hWatching ⊢
    rcases ready_cases (State.startSession { version, canNotify } view rootPath rootUri) view ready
      with hReady | ⟨-, hReady⟩
    · rw [hReady] at hWatching
      exact absurd hWatching (by simp [State.isWatching, State.startSession])
    · rw [hReady] at hWatching ⊢
      refine ⟨rootPath, rootUri, ?_⟩
      simp only [State.beginWatching, State.startSession] at hWatching ⊢
      split at hWatching
      · exact absurd hWatching (by simp [State.isWatching])
      · next ws watcher hStart => exact ⟨ws, watcher, hStart, by simp⟩

/-- The root of a watched workspace is a path made of proper names, and with a notifier
that keeps to paths the server is live. -/
theorem live_start {naming : Naming} (hPlain : view.disk.IsPlain)
    (hCurrent : Path.isRooted view.current = true)
    (hWatching : (started version canNotify view params ready).isWatching = true) :
    ∃ root ws watches, (∀ n ∈ root, IsName n) ∧ ws.root = Path.ofNames root ∧
      (started version canNotify view params ready).workspace = some ws ∧
        (naming.GivesPaths root → Live root
          { view, state := started version canNotify view params ready, naming } ws watches) := by
  obtain ⟨rootPath, rootUri, ws, watcher, hStart, hState⟩ := started_of_isWatching hWatching
  obtain ⟨root, hNames, hRoot⟩ :=
    Path.absolute_eq_ofNames hCurrent (State.sessionRoot rootPath rootUri)
  obtain ⟨survey, -, hAbsorb⟩ := absorb_of_start hStart
  have hHome : ws.root = Path.ofNames root := by
    rw [← hRoot, ← congrArg (fun next => Workspace.root next.1) hAbsorb]
    rfl
  refine ⟨root, ws, watcher.watches, hNames, hHome, by rw [hState], fun hNaming => ?_⟩
  rw [hState]
  exact ⟨rfl, rfl, rfl, rfl, isCurrent_of_start hNaming hPlain hNames hRoot rfl hStart⟩

end Start

/-! ## The main result -/

/-- A path that a workspace keeps a document of: in normal form, that of a Python
file, strictly below the root, with no directory on the way that is passed
over. -/
structure IsSource (root path : Text) : Prop where
  rooted : Path.isRooted path = true
  clean : Path.clean path = path
  python : Path.isPython path = true
  below : ∃ between name, Path.names path = Path.names root ++ between ++ [name] ∧
    ∀ dir ∈ between, Survey.isSkipped dir = false

/-- Take a new server whose session is open and whose watcher has started, on a
disk without symbolic links, and let its notifier call what is in the directories of
the workspace by its path. Whatever happens then, be it requests about documents or
changes of the disk that make no link and leave the root in its place, under every
source path of the workspace that is not open in the editor the store has a document
exactly when the disk has a regular file, and it has the lines of that file. -/
theorem closed_documents_are_the_disk (naming : Naming) (version : Text) (canNotify : Bool)
    (view : View) (params ready : Option Json) (ws : Workspace) (happenings : List Happening)
    (hPlain : view.disk.IsPlain) (hCurrent : Path.isRooted view.current = true)
    (hWatching : (started version canNotify view params ready).isWatching = true)
    (hWorkspace : (started version canNotify view params ready).workspace = some ws)
    (hNaming : naming.GivesPaths (Path.names ws.root))
    (hAllowed : ∀ happening ∈ happenings, happening.Allowed (Path.names ws.root)) :
    let site : Site := { view, state := started version canNotify view params ready, naming }
    ∃ now, (site.run happenings).state.workspace = some now ∧ now.root = ws.root ∧
      ∀ path, IsSource ws.root path → now.store.isOpen path = false →
        (now.store.get? path).map Held.lines =
          ((site.run happenings).view.regularFile? path).map Text.lines := by
  intro site
  obtain ⟨root, ws', watches, hNames, hRoot, hSame, hLive⟩ :=
    live_start hPlain hCurrent hWatching
  obtain rfl : ws = ws' := Option.some.inj (hWorkspace.symm.trans hSame)
  have hRootNames : Path.names ws.root = root := by rw [hRoot, Path.names_ofNames hNames]
  rw [hRootNames] at hNaming hAllowed
  obtain ⟨now, nowWatches, hNow⟩ := (hLive hNaming).run hNaming hAllowed
  refine ⟨now, hNow.workspace, hNow.current.home.trans hRoot.symm, fun path hSource hClosed => ?_⟩
  obtain ⟨between, name, hPath, hSkip⟩ := hSource.below
  rw [hRootNames] at hPath
  have hOfNames : Path.ofNames (root ++ between ++ [name]) = path := by
    rw [← hPath, Path.ofNames_of_clean hSource.rooted hSource.clean]
  have hPathNames : ∀ n ∈ root ++ between ++ [name], IsName n :=
    hPath ▸ Path.isName_of_mem_names hSource.rooted
  have hPython := hSource.python
  rw [← hOfNames] at hClosed hPython ⊢
  rw [hNow.current.mirrors _ name ⟨between, rfl, hSkip⟩ hPathNames hPython hClosed]
  exact View.map_lines_copy hNow.current.plain hPathNames

/-- A disk with one source file, seen from the top. -/
def smallView : View :=
  { disk := (Disk.apply {} [.write (text "/w/a.py") (text "a")]).disk }

/-- Parameters that open a session on `/w`. -/
def smallSession : Option Json := some (.object [(text "rootPath", .string (text "/w"))])

/-- Parameters that open a session on the top of the tree. -/
def topSession : Option Json := some (.object [(text "rootPath", .string (text "/"))])

/-- A package is made, moved and left, while a file is asked about and goes. -/
def smallRun : List Happening :=
  [.disk [.write (text "/w/old/b.py") (text "b"), .rename (text "/w/old") (text "/w/pkg")],
    .request (text "textDocument/hover") none,
    .disk [.remove (text "/w/a.py"), .write (text "/w/pkg/b.py") (text "c")]]

theorem smallRun_allowed {root : Location} (hRoot : root <+: [text "w"]) :
    ∀ happening ∈ smallRun, happening.Allowed root := by
  have hHover : Method.ofName? (text "textDocument/hover") = some .hover := by decide
  have hMoved : ¬ Path.names (Byte.slash :: text "/w/old") <+: root := fun hBad =>
    absurd (hBad.trans hRoot) (by decide +kernel)
  have hRemoved : ¬ Path.names (Byte.slash :: text "/w/a.py") <+: root := fun hBad =>
    absurd (hBad.trans hRoot) (by decide +kernel)
  simp [smallRun, Happening.Allowed, Change.Spares, hHover, Method.keepsSession, hMoved, hRemoved]

/-- The main result at work on a small run: on `/w` with a notifier that puts a slash
between the names, and on the top of the tree with one that joins them. -/
theorem closed_documents_of_smallRun :
    (let site : Site :=
        { view := smallView, state := started [] true smallView smallSession (some (.object [])) }
      ∃ now, (site.run smallRun).state.workspace = some now ∧ now.root = text "/w" ∧
        ∀ path, IsSource (text "/w") path → now.store.isOpen path = false →
          (now.store.get? path).map Held.lines =
            ((site.run smallRun).view.regularFile? path).map Text.lines) ∧
    (let site : Site :=
        { view := smallView, state := started [] true smallView topSession (some (.object []))
          naming := Path.join }
      ∃ now, (site.run smallRun).state.workspace = some now ∧ now.root = text "/" ∧
        ∀ path, IsSource (text "/") path → now.store.isOpen path = false →
          (now.store.get? path).map Held.lines =
            ((site.run smallRun).view.regularFile? path).map Text.lines) := by
  have hEdits : Edits [] { disk := {} } (Disk.apply {} [.write (text "/w/a.py") (text "a")]) :=
    Disk.edits_apply Disk.isPlain_empty (by simp [Change.Spares])
  have hPlain : smallView.disk.IsPlain := Edits.isPlain hEdits Disk.isPlain_empty
  have hSmall : Path.names (text "/w") = [text "w"] := by decide
  have hTop : Path.names (text "/") = [] := by decide
  refine ⟨?_, ?_⟩
  · refine closed_documents_are_the_disk .bySlash [] true smallView smallSession
      (some (.object []))
      { root := text "/w"
        store := { documents := [Held.ofFile (text "/w/a.py") (text "a")] } }
      smallRun hPlain (by decide) (by decide +kernel) (by decide +kernel) ?_ ?_
    · exact Naming.givesPaths_bySlash_iff.2 (by simp [hSmall])
    · exact smallRun_allowed (hSmall ▸ List.prefix_refl _)
  · refine closed_documents_are_the_disk Path.join [] true smallView topSession
      (some (.object []))
      { root := text "/"
        store := { documents := [Held.ofFile (text "/w/a.py") (text "a")] } }
      smallRun hPlain (by decide) (by decide +kernel) (by decide +kernel) ?_ ?_
    · exact Naming.givesPaths_join _
    · exact smallRun_allowed (hTop ▸ List.nil_prefix)

end Server

end DottedNames
