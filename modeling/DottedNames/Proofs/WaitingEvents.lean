import DottedNames.Proofs.Interleaving

/-!
# Events that wait

Files of watched directories are written and removed, and none of them is a link.
Each such change puts events about its path into the queue of the watcher, and
the last of them says whether the path has a file afterwards. The watcher handles
events later, when the disk may have changed again; but then newer events wait.

So there is an order in all this that every move keeps: the last waiting event
about a path agrees with the disk, and while none waits the steps that the
watcher still has to make about the path agree with it.

## Main results

* `fileChange_write`, `fileChange_remove` — changes of files and what is told of
  them.
* `get?_exec` — what one step of a party does to a path.
* `grounded_step` — the order is kept by every move.
-/

namespace DottedNames

namespace Concurrent

/-! ## Files in watched directories -/

/-- The path of a place in a watched directory. -/
def IsWatched (watches : Watches) (path : Text) : Prop :=
  ∃ dir name, path = Path.ofNames (dir ++ [name]) ∧ (∀ n ∈ dir ++ [name], IsName n) ∧
    watches.On dir

/-- A symbolic link stands at the path. -/
def State.LinkAt (s : State) (path : Text) : Prop :=
  ∃ target, s.view.disk.get? (Path.names path) = some (.link target)

/-- Only files change: what is written or removed lies in a watched directory and
is no link, and what is removed is no directory. -/
def Move.OnFiles (s : State) : Move → Prop
  | .write path _ => IsWatched s.watches path ∧ ¬ s.LinkAt path
  | .remove path =>
    IsWatched s.watches path ∧ ¬ s.LinkAt path ∧
      s.view.disk.get? (Path.names path) ≠ some .directory
  | _ => True

/-- A store and watches on directories of a disk. -/
structure Ready (s : State) : Prop where
  tree : s.view.disk.IsTree
  named : s.watches.Named
  directories : ∀ dir, s.watches.On dir → s.view.disk.get? dir = some .directory
  sound : s.store.Sound

/-- At most one file has changed, and the events tell of it. -/
structure FileChange (s next : State) (file : Location) (events : List Event) : Prop where
  store : next.store = s.store
  request : next.request = s.request
  watcher : next.watcher = s.watcher
  watches : next.watches = s.watches
  queue : next.queue = s.queue ++ events
  tree : next.view.disk.IsTree
  unlinked : ∀ target, next.view.disk.get? file ≠ some (.link target)
  elsewhere : ∀ loc, loc ≠ file → next.view.disk.get? loc = s.view.disk.get? loc
  directory : next.view.disk.get? file = some .directory ↔ s.view.disk.get? file = some .directory
  /-- A change is told. -/
  told : events ≠ [] ∨ next.view.disk.get? file = s.view.disk.get? file
  /-- What is told is so. -/
  right : ∀ e ∈ events, e.path = Path.ofNames file ∧
    (gone e = true ∧ next.view.copy (Path.ofNames file) = none ∨
      gone e = false ∧ (e.signals.create || e.signals.write) = true ∧
        next.view.copy (Path.ofNames file) ≠ none)

/-- Where nothing below a place has a watch, notices about it are all heard and
leave the watches as they are. -/
theorem heard_at {watches : Watches} {file : Location} (hOn : watches.On file.dropLast)
    (hBelow : ∀ w ∈ watches, ¬ file <+: w.loc) {ns : List Notice}
    (hNotices : ∀ n ∈ ns, n.loc = file) : watches.heard ns = ns ∧ watches.left ns = watches := by
  induction ns with
  | nil => exact ⟨rfl, rfl⟩
  | cons n ns ih =>
      have hLoc := hNotices n (by simp)
      have hHears : watches.hears n = true := Watches.hears_iff.2 (Or.inl (hLoc ▸ hOn))
      have hAfter : watches.after n = watches := by
        unfold Watches.after Watches.dropTree
        split
        · exact List.filter_eq_self.2 fun w hw => Disk.not_isPrefixOf_iff.2 (hLoc ▸ hBelow w hw)
        · rfl
      obtain ⟨hHeard, hLeft⟩ := ih fun m hm => hNotices m (by simp [hm])
      rw [Watches.heard, Watches.left_cons, hAfter, hHears, hHeard, hLeft]
      exact ⟨rfl, rfl⟩

section FileChanges

variable {s : State} {dir : Location} {name : Text}

theorem fileChange_none (h : Ready s) {file : Location}
    (hLink : ∀ target, s.view.disk.get? file ≠ some (.link target)) :
    FileChange s (s.changed { disk := s.view.disk }) file [] where
  store := rfl
  request := rfl
  watcher := rfl
  watches := rfl
  queue := rfl
  tree := h.tree
  unlinked := hLink
  elsewhere := fun _ _ => rfl
  directory := Iff.rfl
  told := Or.inr rfl
  right := by simp

/-- A watch below a place makes a directory of it. -/
theorem not_watched_below (h : Ready s) {file : Location}
    (hFile : s.view.disk.get? file ≠ some .directory) : ∀ w ∈ s.watches, ¬ file <+: w.loc := by
  intro w hw hBelow
  exact hFile (h.tree.directory_of_prefix hBelow (h.directories w.loc ⟨w, hw, rfl⟩))

/-- A change of one file in a watched directory, told by notices about it. -/
theorem fileChange_of_notices (h : Ready s) (hOn : s.watches.On dir)
    (hNames : ∀ n ∈ dir ++ [name], IsName n) {c : Changed}
    (hOld : s.view.disk.get? (dir ++ [name]) ≠ some .directory) (hTree : c.disk.IsTree)
    (hLink : ∀ target, c.disk.get? (dir ++ [name]) ≠ some (.link target))
    (hElse : ∀ loc, loc ≠ dir ++ [name] → c.disk.get? loc = s.view.disk.get? loc)
    (hNew : c.disk.get? (dir ++ [name]) ≠ some .directory) (hNotices : c.notices ≠ [])
    (hRight : ∀ n ∈ c.notices, n.loc = dir ++ [name] ∧
      (n.gone = true ∧ (s.changed c).view.copy (Path.ofNames (dir ++ [name])) = none ∨
        n.gone = false ∧ (n.signals.create || n.signals.write) = true ∧
          (s.changed c).view.copy (Path.ofNames (dir ++ [name])) ≠ none)) :
    FileChange s (s.changed c) (dir ++ [name]) (c.notices.map Notice.toEvent) := by
  obtain ⟨hHeard, hLeft⟩ := heard_at (by simpa using hOn) (not_watched_below h hOld)
    fun n hn => (hRight n hn).1
  have hEvents : s.watches.eventsOf c.notices = (c.notices.map Notice.toEvent, s.watches) := by
    have hProper : ∀ n ∈ c.notices, n.IsProper := fun n hn => by
      have hLoc := (hRight n hn).1
      exact ⟨by simp [hLoc], hLoc ▸ hNames⟩
    rw [Watches.eventsOf_eq h.named.bySlash hProper, hHeard, hLeft]
  exact
    { store := rfl
      request := rfl
      watcher := rfl
      watches := by rw [State.changed, hEvents]
      queue := by rw [State.changed, hEvents]
      tree := hTree
      unlinked := hLink
      elsewhere := hElse
      directory := iff_of_false hNew hOld
      told := Or.inl (by simpa using hNotices)
      right := by
        intro e he
        obtain ⟨n, hn, rfl⟩ := List.mem_map.1 he
        obtain ⟨hLoc, hKind⟩ := hRight n hn
        exact ⟨by rw [Notice.toEvent, hLoc], hKind⟩ }

/-- Writing a file of a watched directory. -/
theorem fileChange_write (h : Ready s) (hOn : s.watches.On dir)
    (hNames : ∀ n ∈ dir ++ [name], IsName n)
    (hLink : ∀ target, s.view.disk.get? (dir ++ [name]) ≠ some (.link target)) (content : Text) :
    ∃ events, FileChange s (s.step (.write (Path.ofNames (dir ++ [name])) content))
      (dir ++ [name]) events := by
  show ∃ events, FileChange s (s.changed (Disk.orStay _ _)) _ events
  have hDir := h.directories dir hOn
  rcases Disk.orStay_cases { disk := s.view.disk }
    (Disk.writeFile · (Path.ofNames (dir ++ [name])) content) with hStays | hWritten
  · rw [hStays]
    exact ⟨[], fileChange_none h hLink⟩
  · obtain ⟨loc, news, hLocate, hOld, hChanged, hNews, hKinds⟩ := Disk.writeFile_eq_ok hWritten
    obtain ⟨rfl, hAddress, -⟩ :=
      View.addressable_of_locate (h.tree.direct_concat hDir hLink) hNames hLocate
    have hTree : (s.view.disk.insert (dir ++ [name]) (.file content)).IsTree :=
      h.tree.insert hDir (hNames name (by simp)) hOld
    have hGet := Disk.get?_insert s.view.disk (by simp : dir ++ [name] ≠ []) (.file content)
    have hFile := (hGet (dir ++ [name])).trans (if_pos rfl)
    have hStands := (hGet dir).trans ((if_neg (by simp)).trans hDir)
    have hDirect : (s.view.disk.insert (dir ++ [name]) (.file content)).Direct (dir ++ [name]) :=
      hTree.direct_concat hStands (by simp [hFile])
    rw [hChanged]
    refine ⟨_, fileChange_of_notices h hOn hNames hOld hTree (by simp [hFile]) (fun loc hOther => ?_)
      (by simp [hFile]) (by simpa using hNews) fun n hn => ?_⟩
    · exact (hGet loc).trans (if_neg hOther)
    · obtain ⟨hLoc, hSignals⟩ := hKinds n (by simpa using hn)
      refine ⟨hLoc, Or.inr ⟨?_, ?_, ?_⟩⟩
      · rcases hSignals with hSignals | hSignals <;> rw [Notice.gone, hSignals] <;> rfl
      · rcases hSignals with hSignals | hSignals <;> rw [hSignals] <;> rfl
      · rw [View.copy_of_file hDirect hAddress hFile]
        simp

/-- Removing a file of a watched directory. -/
theorem fileChange_remove (h : Ready s) (hOn : s.watches.On dir)
    (hNames : ∀ n ∈ dir ++ [name], IsName n)
    (hLink : ∀ target, s.view.disk.get? (dir ++ [name]) ≠ some (.link target))
    (hOld : s.view.disk.get? (dir ++ [name]) ≠ some .directory) :
    ∃ events, FileChange s (s.step (.remove (Path.ofNames (dir ++ [name]))))
      (dir ++ [name]) events := by
  show ∃ events, FileChange s (s.changed (Disk.orStay _ _)) _ events
  have hDir := h.directories dir hOn
  rcases Disk.orStay_cases { disk := s.view.disk }
    (Disk.removeTree · (Path.ofNames (dir ++ [name]))) with hStays | hRemoved
  · rw [hStays]
    exact ⟨[], fileChange_none h hLink⟩
  · obtain ⟨loc, hLocate, hNe, hChanged⟩ := Disk.removeTree_eq_ok hRemoved
    obtain ⟨rfl, -, hThere⟩ :=
      View.addressable_of_locate (h.tree.direct_concat hDir hLink) hNames hLocate
    obtain ⟨entry, hThere⟩ := Option.isSome_iff_exists.1 (hThere.resolve_right (by simp))
    have hGone : (s.view.disk.eraseTree (dir ++ [name])).get? (dir ++ [name]) = none :=
      (Disk.get?_eraseTree _ hNe _).trans (if_pos (List.prefix_refl _))
    have hElse : ∀ loc, loc ≠ dir ++ [name] →
        (s.view.disk.eraseTree (dir ++ [name])).get? loc = s.view.disk.get? loc :=
      fun loc hOther => h.tree.get?_eraseTree_of_ne hNe hOld hOther
    have hTree := h.tree.eraseTree hNe
    have hDirect : (s.view.disk.eraseTree (dir ++ [name])).Direct (dir ++ [name]) :=
      hTree.direct_concat ((hElse dir (by simp)).trans hDir) (by simp [hGone])
    rw [hChanged]
    refine ⟨_, fileChange_of_notices h hOn hNames hOld hTree (by simp [hGone]) hElse (by simp [hGone]) ?_
      fun n hn => ?_⟩
    · have hMem := Disk.mem_tree.2 ⟨List.prefix_refl _, _, Disk.mem_of_get? hNe hThere, rfl⟩
      intro hNil
      have hNone : s.view.disk.tree (dir ++ [name]) = [] := by simpa using hNil
      rw [hNone] at hMem
      exact absurd hMem (by simp)
    · obtain ⟨loc, hLoc, rfl⟩ : ∃ loc ∈ s.view.disk.tree (dir ++ [name]),
          { loc, signals := { remove := true } } = n := by simpa using hn
      obtain ⟨hBelow, e, he, rfl⟩ := Disk.mem_tree.1 hLoc
      refine ⟨h.tree.eq_of_below hOld (h.tree.get?_of_mem he) hBelow, Or.inl ⟨rfl, ?_⟩⟩
      cases hCopy : View.copy _ (Path.ofNames (dir ++ [name])) with
      | none => rfl
      | some doc =>
          obtain ⟨-, content, hFile⟩ := View.file_of_copy hDirect hNames hCopy
          exact absurd (hGone.symm.trans hFile) (by simp)

end FileChanges

namespace FileChange

variable {s next : State} {file changed : Location} {events : List Event}

/-- No link comes up. -/
theorem link_of_link (h : FileChange s next changed events) {loc : Location} {target : Text}
    (hLink : next.view.disk.get? loc = some (.link target)) :
    s.view.disk.get? loc = some (.link target) := by
  have hOther : loc ≠ changed := fun hSame => h.unlinked target (hSame ▸ hLink)
  rw [← h.elsewhere loc hOther, hLink]

/-- Where nothing is told of, the same is read as before. -/
theorem copy_eq (h : FileChange s next changed events) (hDirect : s.view.disk.Direct file)
    (hFile : ∀ n ∈ file, IsName n) (hUntold : ¬ (changed = file ∧ events ≠ [])) :
    next.view.copy (Path.ofNames file) = s.view.copy (Path.ofNames file) := by
  have hNext : next.view.disk.Direct file := ⟨h.tree, fun above hAbove target hLink =>
    hDirect.unlinked above hAbove target (h.link_of_link hLink)⟩
  refine View.copy_congr hNext hDirect hFile ?_
  by_cases hSame : changed = file
  · subst hSame
    exact h.told.resolve_left fun hNe => hUntold ⟨rfl, hNe⟩
  · exact h.elsewhere file (Ne.symm hSame)

end FileChange

/-! ## Steps of a party -/

/-- What a step does to a path: nothing, or it leaves no closed document there,
or it commits content to it. -/
theorem get?_exec {store : Store} (hSound : store.Sound) (view : View) (op : Op) (path : Text) :
    (op.exec view store).1.get? path = store.get? path ∨
      (∀ doc, (op.exec view store).1.get? path = some doc → doc.isOpen = true) ∨
        ∃ content, op = .commit path content ∧ store.isOpen path = false ∧
          (op.exec view store).1.get? path = some (Held.ofFile path content) := by
  have hFiltered : ∀ doc, (store.get? path).filter Held.isOpen = some doc → doc.isOpen = true :=
    fun doc hDoc => (Option.filter_eq_some_iff.1 hDoc).2
  cases op with
  | lookUp other => exact Or.inl rfl
  | read other =>
      refine Or.inl ?_
      simp only [Op.exec]
      split <;> rfl
  | inspect other =>
      refine Or.inl ?_
      simp only [Op.exec]
      split <;> rfl
  | put other content =>
      simp only [Op.exec, Store.get?_openDocument]
      split
      · refine Or.inr (Or.inl fun doc hDoc => ?_)
        rw [← Option.some.inj hDoc]
      · exact Or.inl rfl
  | drop other =>
      simp only [Op.exec, Store.get?_dropWhere hSound]
      cases hHeld : store.get? path with
      | none => exact Or.inl rfl
      | some doc =>
          have hPath := Store.path_of_get? hHeld
          by_cases hSame : path = other
          · refine Or.inr (Or.inl ?_)
            simp [hPath, hSame]
          · refine Or.inl ?_
            simp [hPath, hSame]
  | commit other content =>
      simp only [Op.exec, Store.get?_commit]
      split
      · next hHere =>
          obtain ⟨rfl, hClosed⟩ := hHere
          exact Or.inr (Or.inr ⟨content, rfl, hClosed, rfl⟩)
      · exact Or.inl rfl
  | remove other =>
      simp only [Op.exec, Store.get?_remove hSound]
      split
      · exact Or.inr (Or.inl hFiltered)
      · exact Or.inl rfl
  | removeBelow dir =>
      simp only [Op.exec, Store.get?_removeBelow hSound]
      split
      · exact Or.inr (Or.inl hFiltered)
      · exact Or.inl rfl

theorem sound_exec {store : Store} (hSound : store.Sound) (view : View) (op : Op) :
    (op.exec view store).1.Sound := by
  cases op with
  | lookUp path => exact hSound
  | put path content => exact hSound.openDocument path content
  | drop path => exact hSound.dropWhere _
  | commit path content => exact hSound.commit path content
  | remove path => exact hSound.remove path
  | removeBelow dir => exact hSound.dropWhere _
  | read path =>
      simp only [Op.exec]
      split <;> exact hSound
  | inspect path =>
      simp only [Op.exec]
      split <;> exact hSound

/-! ## What is waiting agrees with the disk -/

/-- The step is one of the watcher's that will settle the path. -/
def Op.Mends (path : Text) : Op → Prop
  | .remove other | .inspect other | .read other | .commit other _ => other = path
  | _ => False

/-- What the step takes for granted about the path is so, the disk's copy being
given. -/
def Op.Agrees (path : Text) (copy : Option Held) : Op → Prop
  | .remove other => other = path → copy = none
  | .inspect other | .read other => other = path → copy ≠ none
  | .commit other content => other = path → copy = some (Held.ofFile path content)
  | .removeBelow _ => True
  | .lookUp _ | .put _ _ | .drop _ => False

/-- No event about the path waits. -/
def Heard (path : Text) (queue : List Event) : Prop := ∀ e ∈ queue, e.path ≠ path

/-- The last waiting event about the path says whether there is a file, and while
none waits the watcher's steps agree with the disk. -/
structure Ordered (path : Text) (s : State) : Prop where
  news : ∀ e ∈ s.queue, e.path = path → gone e = false →
    (e.signals.create || e.signals.write) = true
  last : ∀ front e rest, s.queue = front ++ e :: rest → e.path = path → Heard path rest →
    (gone e = true ↔ s.view.copy path = none)
  agreed : Heard path s.queue → ∀ op ∈ s.watcher, op.Agrees path (s.view.copy path)

/-- Something about the path is still to be settled by the watcher. -/
def Pending (path : Text) (s : State) : Prop :=
  ¬ Heard path s.queue ∨ ∃ op ∈ s.watcher, op.Mends path

theorem heard_append {path : Text} {queue more : List Event} :
    Heard path (queue ++ more) ↔ Heard path queue ∧ Heard path more := by
  simp [Heard, or_imp, forall_and]

/-- The last of the events about a path is a new one if there are new ones about
it. -/
theorem mem_of_last {path : Text} {queue events front rest : List Event} {e : Event}
    (hEvents : events ≠ []) (hAbout : ∀ e ∈ events, e.path = path)
    (hSplit : queue ++ events = front ++ e :: rest) (hRest : Heard path rest) : e ∈ events := by
  rcases List.append_eq_append_iff.1 hSplit with ⟨more, -, hNew⟩ | ⟨more, -, hNew⟩
  · simp [hNew]
  · cases more with
    | nil => simp [← show e :: rest = events from hNew]
    | cons first more =>
        obtain ⟨-, rfl⟩ := List.cons.inj hNew
        obtain ⟨new, hMem⟩ := List.exists_mem_of_ne_nil events hEvents
        exact absurd (hAbout new hMem) (hRest new (by simp [hMem]))

namespace Ordered

variable {path : Text} {s next : State}

theorem congr (h : Ordered path s) (hQueue : next.queue = s.queue)
    (hWatcher : next.watcher = s.watcher) (hView : next.view = s.view) : Ordered path next := by
  refine ⟨?_, ?_, ?_⟩
  · rw [hQueue]
    exact h.news
  · rw [hQueue, hView]
    exact h.last
  · rw [hQueue, hWatcher, hView]
    exact h.agreed

/-- The next event is taken. -/
theorem take {e : Event} {es : List Event} (h : Ordered path s) (hQueue : s.queue = e :: es) :
    Ordered path { s with queue := es, watcher := program e } := by
  refine ⟨fun e' he' => h.news e' (by simp [hQueue, he']), ?_, ?_⟩
  · intro front e' rest hSplit
    exact h.last (e :: front) e' rest (by simp [hQueue, show es = _ from hSplit])
  · intro hHeard op hOp
    -- A last event about the path says what its own steps take for granted.
    have hLast : e.path = path → (gone e = true ↔ s.view.copy path = none) :=
      fun hPath => h.last [] e es hQueue hPath hHeard
    have hCases : op = .removeBelow e.path ∨ op = .remove e.path ∧ gone e = true ∨
        op = .inspect e.path ∧ gone e = false := by
      have hMem : op ∈ program e := hOp
      unfold program at hMem
      split at hMem
      · next hGone =>
          rcases List.mem_append.1 hMem with hRemove | hBelow
          · split at hRemove
            · exact Or.inr (Or.inl ⟨List.mem_singleton.1 hRemove, hGone⟩)
            · exact absurd hRemove (by simp)
          · exact Or.inl (List.mem_singleton.1 hBelow)
      · next hStays =>
          split at hMem
          · exact Or.inr (Or.inr ⟨List.mem_singleton.1 hMem, by simpa using hStays⟩)
          · exact absurd hMem (by simp)
    rcases hCases with rfl | ⟨rfl, hGone⟩ | ⟨rfl, hStays⟩
    · trivial
    · exact fun hPath => (hLast hPath).1 hGone
    · intro hPath hNone
      exact absurd ((hLast hPath).2 hNone) (by simp [hStays])

/-- The watcher makes a step. -/
theorem watcherStep {op : Op} {ops : List Op} (h : Ordered path s) (hWatcher : s.watcher = op :: ops) :
    Ordered path
      { s with
        store := (op.exec s.view s.store).1
        watcher := (op.exec s.view s.store).2 ++ ops } := by
  refine ⟨h.news, h.last, fun hHeard other hOther => ?_⟩
  have hAgreed := h.agreed hHeard
  rw [hWatcher] at hAgreed
  have hOp := hAgreed op (by simp)
  rcases List.mem_append.1 hOther with hDue | hLater
  · cases op with
    | lookUp _ => exact hOp.elim
    | put _ _ => exact hOp.elim
    | drop _ => exact hOp.elim
    | commit _ _ => exact absurd hDue (by simp [Op.exec])
    | remove _ => exact absurd hDue (by simp [Op.exec])
    | removeBelow _ => exact absurd hDue (by simp [Op.exec])
    | read read =>
        cases hRead : s.view.read read with
        | error failure => exact absurd hDue (by simp [Op.exec, hRead])
        | ok content =>
            have hCommit : other = .commit read content := by simpa [Op.exec, hRead] using hDue
            rw [hCommit]
            rintro rfl
            show View.copy s.view _ = _
            rw [View.copy, hRead]
    | inspect inspected =>
        have hRead : other = .read inspected := by
          simp only [Op.exec] at hDue
          split at hDue
          · exact absurd hDue (by simp)
          · exact absurd hDue (by simp)
          · split at hDue
            · exact List.mem_singleton.1 hDue
            · exact absurd hDue (by simp)
        rw [hRead]
        exact hOp
  · exact hAgreed other (by simp [hLater])

/-- A file changes. -/
theorem fileChange {file changed : Location} {events : List Event}
    (h : Ordered (Path.ofNames file) s) (hDirect : s.view.disk.Direct file)
    (hFile : ∀ n ∈ file, IsName n) (hChanged : ∀ n ∈ changed, IsName n)
    (hChange : FileChange s next changed events) : Ordered (Path.ofNames file) next := by
  by_cases hTold : changed = file ∧ events ≠ []
  · obtain ⟨rfl, hEvents⟩ := hTold
    have hAbout : ∀ e ∈ events, e.path = Path.ofNames changed := fun e he => (hChange.right e he).1
    refine ⟨?_, ?_, ?_⟩
    · intro e he hPath hStays
      rw [hChange.queue] at he
      rcases List.mem_append.1 he with hOld | hNew
      · exact h.news e hOld hPath hStays
      · rcases (hChange.right e hNew).2 with ⟨hGone, -⟩ | ⟨-, hNews, -⟩
        · exact absurd hGone (by simp [hStays])
        · exact hNews
    · intro front e rest hSplit hPath hRest
      have hNew := mem_of_last hEvents hAbout (hChange.queue.symm.trans hSplit) hRest
      rcases (hChange.right e hNew).2 with ⟨hGone, hNone⟩ | ⟨hStays, -, hSome⟩
      · exact iff_of_true hGone hNone
      · exact iff_of_false (by simp [hStays]) hSome
    · intro hHeard
      rw [hChange.queue, heard_append] at hHeard
      obtain ⟨new, hMem⟩ := List.exists_mem_of_ne_nil events hEvents
      exact absurd (hAbout new hMem) (hHeard.2 new hMem)
  · have hCopy := hChange.copy_eq hDirect hFile hTold
    have hOthers : Heard (Path.ofNames file) events := by
      intro e he hPath
      have hSame : changed = file :=
        Path.ofNames_inj hChanged hFile ((hChange.right e he).1.symm.trans hPath)
      exact hTold ⟨hSame, List.ne_nil_of_mem he⟩
    refine ⟨?_, ?_, ?_⟩
    · intro e he hPath
      rw [hChange.queue] at he
      rcases List.mem_append.1 he with hOld | hNew
      · exact h.news e hOld hPath
      · exact absurd hPath (hOthers e hNew)
    · intro front e rest hSplit hPath hRest
      rw [hCopy]
      rcases List.append_eq_append_iff.1 (hChange.queue.symm.trans hSplit) with
        ⟨more, -, hEvents⟩ | ⟨more, hQueue, hEvents⟩
      · exact absurd hPath (hOthers e (by simp [hEvents]))
      · cases more with
        | nil => exact absurd hPath (hOthers e (by simp [← show e :: rest = events from hEvents]))
        | cons first more =>
            obtain ⟨rfl, rfl⟩ := List.cons.inj hEvents
            exact h.last front e more hQueue hPath (heard_append.1 hRest).1
    · intro hHeard
      rw [hChange.queue, heard_append] at hHeard
      rw [hCopy, hChange.watcher]
      exact h.agreed hHeard.1

end Ordered

/-! ## The ground that runs stand on -/

/-- The state has the watches and the directories it started with, and no link
that was not there. -/
structure Grounded (start s : State) : Prop extends Ready s where
  watches : s.watches = start.watches
  same : ∀ dir, s.view.disk.get? dir = some .directory ↔
    start.view.disk.get? dir = some .directory
  links : ∀ loc target, s.view.disk.get? loc = some (.link target) →
    start.view.disk.get? loc = some (.link target)

namespace Grounded

variable {start s next : State}

theorem init (h : Ready start) : Grounded start start :=
  ⟨h, rfl, fun _ => Iff.rfl, fun _ _ hLink => hLink⟩

/-- Where no link stood none stands. -/
theorem direct (h : Grounded start s) {file : Location} (hDirect : start.view.disk.Direct file) :
    s.view.disk.Direct file :=
  ⟨h.tree, fun above hAbove target hLink =>
    hDirect.unlinked above hAbove target (h.links above target hLink)⟩

/-- A move that changes the store and the parties only. -/
theorem of_parties (h : Grounded start s) (hView : next.view = s.view)
    (hWatches : next.watches = s.watches) (hSound : next.store.Sound) : Grounded start next where
  tree := hView ▸ h.tree
  named := hWatches ▸ h.named
  directories := by
    rw [hView, hWatches]
    exact h.directories
  sound := hSound
  watches := hWatches.trans h.watches
  same := by
    rw [hView]
    exact h.same
  links := by
    rw [hView]
    exact h.links

theorem of_fileChange (h : Grounded start s) {file : Location} {events : List Event}
    (hChange : FileChange s next file events) : Grounded start next := by
  have hSame : ∀ dir, next.view.disk.get? dir = some .directory ↔
      s.view.disk.get? dir = some .directory := by
    intro dir
    by_cases hFile : dir = file
    · rw [hFile]
      exact hChange.directory
    · rw [hChange.elsewhere dir hFile]
  refine ⟨⟨hChange.tree, hChange.watches ▸ h.named, ?_, hChange.store ▸ h.sound⟩,
    hChange.watches.trans h.watches, fun dir => (hSame dir).trans (h.same dir),
    fun loc target hLink => h.links loc target (hChange.link_of_link hLink)⟩
  intro dir hOn
  rw [hChange.watches] at hOn
  exact (hSame dir).2 (h.directories dir hOn)

/-- A path with no link at the start has none. -/
theorem not_link (h : Grounded start s) {loc : Location} (hNames : ∀ n ∈ loc, IsName n)
    (hLink : ¬ start.LinkAt (Path.ofNames loc)) (target : Text) :
    s.view.disk.get? loc ≠ some (.link target) := by
  intro hBad
  refine hLink ⟨target, ?_⟩
  rw [Path.names_ofNames hNames]
  exact h.links loc target hBad

/-- A move of the disk is a change of one file. -/
theorem fileChange_of_write (h : Grounded start s) {path content : Text}
    (hMove : (Move.write path content).OnFiles start) :
    ∃ file events, (∀ n ∈ file, IsName n) ∧
      FileChange s (s.step (.write path content)) file events := by
  obtain ⟨⟨dir, name, rfl, hNames, hOn⟩, hLink⟩ := hMove
  obtain ⟨events, hChange⟩ :=
    fileChange_write h.toReady (h.watches ▸ hOn) hNames (h.not_link hNames hLink) content
  exact ⟨dir ++ [name], events, hNames, hChange⟩

theorem fileChange_of_remove (h : Grounded start s) {path : Text}
    (hMove : (Move.remove path).OnFiles start) :
    ∃ file events, (∀ n ∈ file, IsName n) ∧ FileChange s (s.step (.remove path)) file events := by
  obtain ⟨⟨dir, name, rfl, hNames, hOn⟩, hLink, hNotDir⟩ := hMove
  rw [Path.names_ofNames hNames] at hNotDir
  have hOld : s.view.disk.get? (dir ++ [name]) ≠ some .directory :=
    fun hBad => hNotDir ((h.same _).1 hBad)
  obtain ⟨events, hChange⟩ :=
    fileChange_remove h.toReady (h.watches ▸ hOn) hNames (h.not_link hNames hLink) hOld
  exact ⟨dir ++ [name], events, hNames, hChange⟩

end Grounded

theorem sound_advance {view : View} {store : Store} (hSound : store.Sound) (ops : List Op) :
    (advance view store ops).1.Sound := by
  cases ops with
  | nil => exact hSound
  | cons op ops => exact sound_exec hSound view op

/-- One move keeps the ground and the order of what waits. -/
theorem grounded_step {start s : State} {file : Location} {m : Move} (h : Grounded start s)
    (hOrdered : Ordered (Path.ofNames file) s) (hDirect : start.view.disk.Direct file)
    (hFile : ∀ n ∈ file, IsName n) (hMove : m.OnFiles start) :
    Grounded start (s.step m) ∧ Ordered (Path.ofNames file) (s.step m) := by
  cases m with
  | begin call =>
      simp only [State.step]
      split
      · exact ⟨h.of_parties rfl rfl h.sound, hOrdered.congr rfl rfl rfl⟩
      · exact ⟨h, hOrdered⟩
  | requestStep =>
      exact ⟨h.of_parties rfl rfl (sound_advance h.sound _), hOrdered.congr rfl rfl rfl⟩
  | take =>
      simp only [State.step]
      split
      · next e es hWatcher hQueue =>
          exact ⟨h.of_parties rfl rfl h.sound, hOrdered.take hQueue⟩
      · exact ⟨h, hOrdered⟩
  | watcherStep =>
      refine ⟨h.of_parties rfl rfl (sound_advance h.sound _), ?_⟩
      simp only [State.step]
      cases hWatcher : s.watcher with
      | nil => exact hOrdered.congr rfl hWatcher.symm rfl
      | cons op ops => exact hOrdered.watcherStep hWatcher
  | write path content =>
      obtain ⟨changed, events, hChanged, hChange⟩ := h.fileChange_of_write hMove
      exact ⟨h.of_fileChange hChange, hOrdered.fileChange (h.direct hDirect) hFile hChanged hChange⟩
  | remove path =>
      obtain ⟨changed, events, hChanged, hChange⟩ := h.fileChange_of_remove hMove
      exact ⟨h.of_fileChange hChange, hOrdered.fileChange (h.direct hDirect) hFile hChanged hChange⟩

end Concurrent

end DottedNames
