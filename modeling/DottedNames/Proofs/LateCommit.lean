import DottedNames.Proofs.WaitingEvents

/-!
# Late commits

A scan that reads the disk before a change and commits after it puts old content
into the store. When the watcher does so, the event of the change still waits,
and handling it puts things right. When a request does so after the event has
been handled, nothing puts it right, and the old content stays. So requests and
the watcher together can lose a change of the disk.

This module finds out exactly when. With files written and removed in watched
directories only, a path that is no link ends up stale precisely when the last
thing that touched it was a late commit of a request. What carries the proof is
the fate of a path: it is not stale, or the watcher has yet to settle it, or a
late commit spoilt it and nothing has touched it since.

Behind a link a change is lost without any request under way, since the event
names the file and not the link.

## Main results

* `Fate.step` — what one move preserves.
* `stale_iff_late_commit` — when a path ends up stale.
* `changes_can_be_lost` — it does happen.
-/

namespace DottedNames

namespace Concurrent

/-! ## The fate of a path -/

/-- The request is about to commit content to a closed path that is no longer
what the disk has there, and nothing about the path is still to be settled. -/
structure LateCommit (path content : Text) (s : State) : Prop where
  next : s.request.head? = some (.commit path content)
  closed : s.store.isOpen path = false
  settled : ¬ Pending path s
  outdated : ∀ now, s.view.read path = .ok now → Text.lines content ≠ Text.lines now

/-- No move changes what is stored under the path or what is read there. -/
def Untouched (path : Text) (s : State) : List Move → Prop
  | [] => True
  | m :: moves =>
    (s.step m).store.get? path = s.store.get? path ∧
      (s.step m).view.copy path = s.view.copy path ∧ Untouched path (s.step m) moves

/-- Some moves held a late commit, and it was the last that touched the path. -/
def SpoiltBy (path : Text) (start : State) (moves : List Move) : Prop :=
  ∃ before after content, moves = before ++ .requestStep :: after ∧
    LateCommit path content (start.run before) ∧
      Untouched path (start.run (before ++ [.requestStep])) after

section Fate

variable {path : Text} {start s next : State} {moves : List Move}

theorem untouched_concat {m : Move} (h : Untouched path s moves)
    (hStore : ((s.run moves).step m).store.get? path = (s.run moves).store.get? path)
    (hCopy : ((s.run moves).step m).view.copy path = (s.run moves).view.copy path) :
    Untouched path s (moves ++ [m]) := by
  induction moves generalizing s with
  | nil => exact ⟨hStore, hCopy, trivial⟩
  | cons first moves ih => exact ⟨h.1, h.2.1, ih h.2.2 hStore hCopy⟩

theorem Untouched.same (h : Untouched path s moves) :
    (s.run moves).store.get? path = s.store.get? path ∧
      (s.run moves).view.copy path = s.view.copy path := by
  induction moves generalizing s with
  | nil => exact ⟨rfl, rfl⟩
  | cons m moves ih =>
      obtain ⟨hStore, hCopy⟩ := ih h.2.2
      exact ⟨hStore.trans h.1, hCopy.trans h.2.1⟩

theorem stale_congr (hStore : next.store.get? path = s.store.get? path)
    (hCopy : next.view.copy path = s.view.copy path) : next.Stale path ↔ s.Stale path := by
  rw [State.stale_iff, State.stale_iff, hStore, hCopy]

theorem not_stale_of_open (h : ∀ doc, s.store.get? path = some doc → doc.isOpen = true) :
    ¬ s.Stale path := by
  rintro ⟨doc, hHeld, hClosed, -⟩
  exact absurd (h doc hHeld) (by simp [hClosed])

theorem not_stale_of_copy (h : s.store.get? path = s.view.copy path) : ¬ s.Stale path := by
  rw [State.stale_iff]
  rintro ⟨doc, hHeld, -, hNot⟩
  exact hNot (h ▸ hHeld)

/-- A late commit leaves the path stale. -/
theorem LateCommit.stale {content : Text} (h : LateCommit path content s) :
    (s.step .requestStep).Stale path := by
  obtain ⟨ops, hRequest⟩ : ∃ ops, s.request = .commit path content :: ops := by
    cases hOps : s.request with
    | nil => exact absurd h.next (by simp [hOps])
    | cons op ops => exact ⟨ops, by simpa [hOps] using h.next⟩
  refine ⟨Held.ofFile path content, ?_, rfl, h.outdated⟩
  simp [State.step, hRequest, advance, Op.exec, Store.get?_commit, h.closed, Held.ofFile]

/-- What is known of a path after some moves: it is not stale, or the watcher
has yet to settle it, or a late commit spoilt it. -/
def Fate (path : Text) (start : State) (moves : List Move) : Prop :=
  ¬ (start.run moves).Stale path ∨ Pending path (start.run moves) ∨ SpoiltBy path start moves

theorem run_concat (start : State) (moves : List Move) (m : Move) :
    start.run (moves ++ [m]) = (start.run moves).step m := State.run_append start moves [m]

theorem run_split (start : State) (before : List Move) (m : Move) (after : List Move) :
    start.run (before ++ m :: after) = (start.run (before ++ [m])).run after := by
  rw [← State.run_append, List.append_assoc, List.singleton_append]

/-- A move that does not touch the path and settles nothing about it. -/
theorem Fate.of_same {m : Move} (h : Fate path start moves)
    (hStore : ((start.run moves).step m).store.get? path = (start.run moves).store.get? path)
    (hCopy : ((start.run moves).step m).view.copy path = (start.run moves).view.copy path)
    (hPending : Pending path (start.run moves) → Pending path ((start.run moves).step m)) :
    Fate path start (moves ++ [m]) := by
  unfold Fate
  rw [run_concat]
  rcases h with hFresh | hWaits | ⟨before, after, content, rfl, hLate, hUntouched⟩
  · exact Or.inl fun hStale => hFresh ((stale_congr hStore hCopy).1 hStale)
  · exact Or.inr (Or.inl (hPending hWaits))
  · refine Or.inr (Or.inr ⟨before, after ++ [m], content, by simp, hLate, ?_⟩)
    rw [run_split] at hStore hCopy
    exact untouched_concat hUntouched hStore hCopy

/-- A step of the request: only a late commit spoils the path. -/
theorem Fate.requestStep (h : Fate path start moves) (hSound : (start.run moves).store.Sound) :
    Fate path start (moves ++ [.requestStep]) := by
  generalize hNow : start.run moves = now at hSound
  cases hRequest : now.request with
  | nil =>
      have hStep : now.step .requestStep = now := by
        rw [State.step, hRequest, advance, ← hRequest]
      exact h.of_same (by rw [hNow, hStep]) (by rw [hNow, hStep]) (by rw [hNow, hStep]; exact id)
  | cons op ops =>
      have hStep : now.step .requestStep =
          { now with
            store := (op.exec now.view now.store).1
            request := (op.exec now.view now.store).2 ++ ops } := by
        simp [State.step, hRequest, advance]
      rcases get?_exec hSound now.view op path with hStays | hOpen | ⟨content, rfl, hClosed, hHeld⟩
      · exact h.of_same (by rw [hNow, hStep]; exact hStays) (by rw [hNow, hStep])
          (by rw [hNow, hStep]; exact id)
      · refine Or.inl ?_
        rw [run_concat, hNow, hStep]
        exact not_stale_of_open hOpen
      · by_cases hWaits : Pending path now
        · refine Or.inr (Or.inl ?_)
          rw [run_concat, hNow, hStep]
          exact hWaits
        · by_cases hCopy : now.view.copy path = some (Held.ofFile path content)
          · refine Or.inl ?_
            rw [run_concat, hNow, hStep]
            exact not_stale_of_copy (hHeld.trans hCopy.symm)
          · refine Or.inr (Or.inr ⟨moves, [], content, rfl, ?_, trivial⟩)
            rw [hNow]
            refine ⟨by simp [hRequest], hClosed, hWaits, fun current hRead hSame => hCopy ?_⟩
            rw [View.copy, hRead]
            simp [Held.ofFile, hSame]

/-- The watcher takes an event: what waited is now under way. -/
theorem Fate.take (h : Fate path start moves) (hOrdered : Ordered path (start.run moves))
    (hPython : Path.isPython path = true) : Fate path start (moves ++ [.take]) := by
  generalize hNow : start.run moves = now at hOrdered
  have hStore : (now.step .take).store = now.store := by
    simp only [State.step]
    split <;> rfl
  have hView : (now.step .take).view = now.view := by
    simp only [State.step]
    split <;> rfl
  refine h.of_same (by rw [hNow, hStore]) (by rw [hNow, hView]) ?_
  rw [hNow]
  simp only [State.step]
  split
  · next e es hWatcher hQueue =>
      rintro (hWaits | ⟨op, hOp, -⟩)
      · by_cases hPath : e.path = path
        · refine Or.inr ?_
          cases hGone : gone e with
          | true => exact ⟨.remove path, by simp [program, hGone, hPath, hPython], rfl⟩
          | false =>
              have hNews := hOrdered.news e (by simp [hQueue]) hPath hGone
              exact ⟨.inspect path, by simp [program, hGone, hNews, hPath], rfl⟩
        · refine Or.inl fun hRest => hWaits ?_
          rw [hQueue]
          intro e' he'
          rcases List.mem_cons.1 he' with rfl | hLater
          · exact hPath
          · exact hRest e' hLater
      · rw [hWatcher] at hOp
        exact absurd hOp (by simp)
  · exact id

/-- A step of the watcher that settles the path, no event about it waiting. -/
theorem mended {file : Location} {op : Op} (ops : List Op) {store : Store} {view : View}
    (hSound : store.Sound) (hDirect : view.disk.Direct file) (hFile : ∀ n ∈ file, IsName n)
    (hPython : Path.isPython (Path.ofNames file) = true) (hMends : op.Mends (Path.ofNames file))
    (hAgrees : op.Agrees (Path.ofNames file) (view.copy (Path.ofNames file))) :
    (∀ doc, (op.exec view store).1.get? (Path.ofNames file) = some doc → doc.isOpen = true) ∨
      (op.exec view store).1.get? (Path.ofNames file) = view.copy (Path.ofNames file) ∨
        ∃ other ∈ (op.exec view store).2 ++ ops, other.Mends (Path.ofNames file) := by
  cases op with
  | lookUp _ => exact hMends.elim
  | put _ _ => exact hMends.elim
  | drop _ => exact hMends.elim
  | removeBelow _ => exact hMends.elim
  | remove other =>
      obtain rfl : other = Path.ofNames file := hMends
      refine Or.inl fun doc hDoc => ?_
      simp only [Op.exec, Store.get?_remove hSound, if_true] at hDoc
      exact (Option.filter_eq_some_iff.1 hDoc).2
  | inspect other =>
      obtain rfl : other = Path.ofNames file := hMends
      obtain ⟨doc, hCopy⟩ := Option.ne_none_iff_exists'.1 (hAgrees rfl)
      obtain ⟨hAddress, content, hContent⟩ := View.file_of_copy hDirect hFile hCopy
      have hFollow : view.follow (Path.ofNames file) = .ok (.file content) :=
        (View.entry_ofNames_iff hDirect _ hFile).2 ⟨hAddress, hContent⟩
      refine Or.inr (Or.inr ⟨.read (Path.ofNames file), ?_, rfl⟩)
      simp [Op.exec, hFollow, hPython]
  | read other =>
      obtain rfl : other = Path.ofNames file := hMends
      cases hRead : view.read (Path.ofNames file) with
      | error failure => exact absurd (by rw [View.copy, hRead]) (hAgrees rfl)
      | ok content =>
          refine Or.inr (Or.inr ⟨.commit (Path.ofNames file) content, ?_, rfl⟩)
          simp [Op.exec, hRead]
  | commit other content =>
      obtain rfl : other = Path.ofNames file := hMends
      simp only [Op.exec, Store.get?_commit, true_and]
      cases hOpen : store.isOpen (Path.ofNames file) with
      | false => exact Or.inr (Or.inl (hAgrees rfl).symm)
      | true =>
          refine Or.inl fun doc hDoc => ?_
          rw [Store.isOpen_eq_any, show store.get? _ = some doc by simpa using hDoc] at hOpen
          simpa using hOpen

/-- A step of the watcher. -/
theorem Fate.watcherStep {file : Location} (h : Fate (Path.ofNames file) start moves)
    (hGrounded : Grounded start (start.run moves))
    (hOrdered : Ordered (Path.ofNames file) (start.run moves))
    (hDirect : start.view.disk.Direct file) (hFile : ∀ n ∈ file, IsName n)
    (hPython : Path.isPython (Path.ofNames file) = true) :
    Fate (Path.ofNames file) start (moves ++ [.watcherStep]) := by
  generalize hNow : start.run moves = now at hGrounded hOrdered
  cases hWatcher : now.watcher with
  | nil =>
      have hStep : now.step .watcherStep = now := by
        rw [State.step, hWatcher, advance, ← hWatcher]
      exact h.of_same (by rw [hNow, hStep]) (by rw [hNow, hStep]) (by rw [hNow, hStep]; exact id)
  | cons op ops =>
      have hStep : now.step .watcherStep =
          { now with
            store := (op.exec now.view now.store).1
            watcher := (op.exec now.view now.store).2 ++ ops } := by
        simp [State.step, hWatcher, advance]
      have hNext : start.run (moves ++ [.watcherStep]) = now.step .watcherStep := by
        rw [run_concat, hNow]
      by_cases hHeard : Heard (Path.ofNames file) now.queue
      · by_cases hMends : op.Mends (Path.ofNames file)
        · have hAgrees := hOrdered.agreed hHeard op (by simp [hWatcher])
          have hMended := mended ops hGrounded.sound (hGrounded.direct hDirect) hFile hPython
            hMends hAgrees
          unfold Fate
          rw [hNext, hStep]
          rcases hMended with hOpen | hCopy | hDue
          · exact Or.inl (not_stale_of_open hOpen)
          · exact Or.inl (not_stale_of_copy hCopy)
          · exact Or.inr (Or.inl (Or.inr hDue))
        · rcases get?_exec hGrounded.sound now.view op (Path.ofNames file) with
            hStays | hOpen | ⟨content, rfl, -, -⟩
          · refine h.of_same (by rw [hNow, hStep]; exact hStays) (by rw [hNow, hStep]) ?_
            rw [hNow, hStep]
            rintro (hWaits | ⟨other, hOther, hSettles⟩)
            · exact absurd hHeard hWaits
            · rw [hWatcher] at hOther
              rcases List.mem_cons.1 hOther with rfl | hLater
              · exact absurd hSettles hMends
              · exact Or.inr ⟨other, List.mem_append_right _ hLater, hSettles⟩
          · refine Or.inl ?_
            rw [hNext, hStep]
            exact not_stale_of_open hOpen
          · exact absurd rfl hMends
      · refine Or.inr (Or.inl (Or.inl ?_))
        rw [hNext, hStep]
        exact hHeard

/-- A change of a file: what it is told about is to be settled. -/
theorem Fate.fileChange {file changed : Location} {events : List Event} {m : Move}
    (h : Fate (Path.ofNames file) start moves)
    (hDirect : (start.run moves).view.disk.Direct file) (hFile : ∀ n ∈ file, IsName n)
    (hChange : FileChange (start.run moves) ((start.run moves).step m) changed events) :
    Fate (Path.ofNames file) start (moves ++ [m]) := by
  by_cases hTold : changed = file ∧ events ≠ []
  · obtain ⟨rfl, hEvents⟩ := hTold
    refine Or.inr (Or.inl (Or.inl fun hHeard => ?_))
    rw [run_concat, hChange.queue, heard_append] at hHeard
    obtain ⟨new, hMem⟩ := List.exists_mem_of_ne_nil events hEvents
    exact hHeard.2 new hMem (hChange.right new hMem).1
  · refine h.of_same (by rw [hChange.store]) (hChange.copy_eq hDirect hFile hTold) ?_
    rintro (hWaits | hMends)
    · refine Or.inl fun hHeard => hWaits ?_
      rw [hChange.queue, heard_append] at hHeard
      exact hHeard.1
    · exact Or.inr (hChange.watcher ▸ hMends)

theorem Fate.step {file : Location} {m : Move} (h : Fate (Path.ofNames file) start moves)
    (hGrounded : Grounded start (start.run moves))
    (hOrdered : Ordered (Path.ofNames file) (start.run moves))
    (hDirect : start.view.disk.Direct file) (hFile : ∀ n ∈ file, IsName n)
    (hPython : Path.isPython (Path.ofNames file) = true) (hMove : m.OnFiles start) :
    Fate (Path.ofNames file) start (moves ++ [m]) := by
  cases m with
  | begin call =>
      have hParts : ((start.run moves).step (.begin call)).store = (start.run moves).store ∧
          ((start.run moves).step (.begin call)).view = (start.run moves).view ∧
            ((start.run moves).step (.begin call)).queue = (start.run moves).queue ∧
              ((start.run moves).step (.begin call)).watcher = (start.run moves).watcher := by
        simp only [State.step]
        split <;> exact ⟨rfl, rfl, rfl, rfl⟩
      obtain ⟨hStore, hView, hQueue, hWatcher⟩ := hParts
      refine h.of_same (by rw [hStore]) (by rw [hView]) ?_
      unfold Pending
      rw [hQueue, hWatcher]
      exact id
  | requestStep => exact h.requestStep hGrounded.sound
  | take => exact h.take hOrdered hPython
  | watcherStep => exact h.watcherStep hGrounded hOrdered hDirect hFile hPython
  | write path content =>
      obtain ⟨changed, events, -, hChange⟩ := hGrounded.fileChange_of_write hMove
      exact h.fileChange (hGrounded.direct hDirect) hFile hChange
  | remove path =>
      obtain ⟨changed, events, -, hChange⟩ := hGrounded.fileChange_of_remove hMove
      exact h.fileChange (hGrounded.direct hDirect) hFile hChange

/-- After any moves: the ground, the order, and the fate of the path. -/
theorem fate_run {file : Location} (hDirect : start.view.disk.Direct file)
    (hFile : ∀ n ∈ file, IsName n) (hPython : Path.isPython (Path.ofNames file) = true)
    (done moves : List Move)
    (hDone : Grounded start (start.run done) ∧ Ordered (Path.ofNames file) (start.run done) ∧
      Fate (Path.ofNames file) start done)
    (hMoves : ∀ m ∈ moves, m.OnFiles start) :
    Fate (Path.ofNames file) start (done ++ moves) := by
  induction moves generalizing done with
  | nil => simpa using hDone.2.2
  | cons m moves ih =>
      obtain ⟨hGrounded, hOrdered, hFate⟩ := hDone
      have hMove := hMoves m (by simp)
      obtain ⟨hNextGround, hNextOrder⟩ := grounded_step hGrounded hOrdered hDirect hFile hMove
      rw [← run_concat] at hNextGround hNextOrder
      have hNext := hFate.step hGrounded hOrdered hDirect hFile hPython hMove
      have hRest := ih (done ++ [m]) ⟨hNextGround, hNextOrder, hNext⟩
        fun m' hm' => hMoves m' (by simp [hm'])
      simpa using hRest

end Fate

/-! ## The main result -/

/-- Requests and the watcher interleave with files that are written and removed
in watched directories. Once nothing is in flight, a path of such a directory
that is no link and was not stale at the start is stale precisely when a
request's late commit was the last that touched it. -/
theorem stale_iff_late_commit (start : State) (moves : List Move) (path : Text)
    (hReady : Ready start) (hIdle : start.Idle) (hPath : IsWatched start.watches path)
    (hLink : ¬ start.LinkAt path) (hPython : Path.isPython path = true) (hFresh : ¬ start.Stale path)
    (hMoves : ∀ m ∈ moves, m.OnFiles start) (hEnd : (start.run moves).Idle) :
    (start.run moves).Stale path ↔
      ∃ before after content, moves = before ++ .requestStep :: after ∧
        LateCommit path content (start.run before) ∧
          Untouched path (start.run (before ++ [.requestStep])) after := by
  obtain ⟨dir, name, rfl, hNames, hOn⟩ := hPath
  constructor
  · intro hStale
    have hGrounded := Grounded.init hReady
    have hDirect : start.view.disk.Direct (dir ++ [name]) :=
      hReady.tree.direct_concat (hReady.directories dir hOn) (hGrounded.not_link hNames hLink)
    have hOrdered : Ordered (Path.ofNames (dir ++ [name])) start := by
      refine ⟨?_, ?_, ?_⟩
      · simp [hIdle.queue]
      · simp [hIdle.queue]
      · simp [hIdle.watcher]
    have hFate := fate_run hDirect hNames hPython [] moves
      ⟨hGrounded, hOrdered, Or.inl hFresh⟩ hMoves
    rcases hFate with hNot | hWaits | hSpoilt
    · exact absurd hStale hNot
    · rcases hWaits with hQueue | ⟨op, hOp, -⟩
      · exact absurd (by simp [Heard, hEnd.queue]) hQueue
      · rw [List.nil_append, hEnd.watcher] at hOp
        exact absurd hOp (by simp)
    · exact hSpoilt
  · rintro ⟨before, after, content, rfl, hLate, hUntouched⟩
    have hStale := hLate.stale
    rw [← run_concat] at hStale
    obtain ⟨hStore, hCopy⟩ := hUntouched.same
    rw [run_split]
    exact (stale_congr hStore hCopy).2 hStale

/-! ## A change that is lost -/

/-- The path of the file that the two parties meet at. -/
def sharedPath : Text := text "/w/a.py"

/-- One file in a watched directory, and the store has it. -/
def raceStart : State :=
  { view := { disk := (Disk.apply {} [.write sharedPath (text "old")]).disk }
    store := { documents := [Held.ofFile sharedPath (text "old")] }
    watches := [{ loc := [text "w"], name := text "/w" }] }

/-- The document is closed. Between the read and the commit of its scan the file
is written anew, and the watcher handles the event. -/
def race : List Move :=
  [.begin (.close sharedPath), .requestStep, .requestStep, .write sharedPath (text "new"),
    .take, .watcherStep, .watcherStep, .watcherStep, .requestStep]

theorem isName_shared : IsName (text "w") ∧ IsName (text "a.py") ∧ IsName (text "link.py") := by
  decide

theorem isWatched_sharedPath : IsWatched raceStart.watches sharedPath :=
  ⟨[text "w"], text "a.py", by decide, by simp [isName_shared], _, List.mem_singleton_self _, rfl⟩

theorem not_linkAt_of_file {s : State} {path content : Text}
    (h : s.view.disk.get? (Path.names path) = some (.file content)) : ¬ s.LinkAt path := by
  rintro ⟨target, hLink⟩
  rw [h] at hLink
  exact absurd hLink (by simp)

theorem not_linkAt_sharedPath : ¬ raceStart.LinkAt sharedPath :=
  not_linkAt_of_file (show _ = some (Entry.file (text "old")) by decide +kernel)

/-- Watches on the one directory are ready on any tree that has it. -/
theorem ready_of_tree {s : State} (hTree : s.view.disk.IsTree)
    (hDir : s.view.disk.get? [text "w"] = some .directory)
    (hWatches : s.watches = raceStart.watches) (hSound : s.store.Sound) : Ready s := by
  refine ⟨hTree, hWatches ▸ ⟨?_, ?_⟩, ?_, hSound⟩
  · intro w hw
    rw [List.mem_singleton.1 hw]
    decide
  · intro w hw
    rw [List.mem_singleton.1 hw]
    decide
  · rw [hWatches]
    rintro dir ⟨w, hw, rfl⟩
    rw [List.mem_singleton.1 hw]
    exact hDir

theorem isTree_raceStart : raceStart.view.disk.IsTree := by
  have hEdits : Edits [] { disk := {} } (Disk.apply {} [.write sharedPath (text "old")]) :=
    Disk.edits_apply Disk.isPlain_empty (by simp [Change.Spares])
  exact (Edits.isPlain hEdits Disk.isPlain_empty).toIsTree

theorem ready_raceStart : Ready raceStart :=
  ready_of_tree isTree_raceStart (by decide +kernel) rfl
    (Store.sound_empty.put (Held.ofFile sharedPath (text "old")))

theorem onFiles_race : ∀ m ∈ race, m.OnFiles raceStart := by
  simp [race, Move.OnFiles, isWatched_sharedPath, not_linkAt_sharedPath]

theorem raceStart_fresh : raceStart.Idle ∧ ¬ raceStart.Stale sharedPath := by
  refine ⟨⟨rfl, rfl, rfl⟩, not_stale_of_copy ?_⟩
  decide +kernel

theorem race_stale : (raceStart.run race).Idle ∧ (raceStart.run race).Stale sharedPath := by
  have hHeld : (raceStart.run race).store.get? sharedPath =
      some (Held.ofFile sharedPath (text "old")) := by decide +kernel
  have hCopy : (raceStart.run race).view.copy sharedPath =
      some (Held.ofFile sharedPath (text "new")) := by decide +kernel
  refine ⟨⟨by decide +kernel, by decide +kernel, by decide +kernel⟩, ?_⟩
  refine (State.stale_iff _ _).2 ⟨_, hHeld, rfl, ?_⟩
  rw [hCopy]
  decide

/-- The late commit of the race. -/
theorem late_commit_of_race :
    ∃ before after content, race = before ++ .requestStep :: after ∧
      LateCommit sharedPath content (raceStart.run before) ∧
        Untouched sharedPath (raceStart.run (before ++ [.requestStep])) after :=
  (stale_iff_late_commit raceStart race sharedPath ready_raceStart raceStart_fresh.1
    isWatched_sharedPath not_linkAt_sharedPath (by decide) raceStart_fresh.2 onFiles_race
    race_stale.1).1 race_stale.2

/-- Another name of the shared file, by a link. -/
def linkPath : Text := text "/w/link.py"

/-- The store has the file under both names. -/
def linkStart : State :=
  { view := { disk := (Disk.apply {} [.write sharedPath (text "old"),
      .makeLink linkPath (text "a.py")]).disk }
    store := { documents := [Held.ofFile sharedPath (text "old"),
      Held.ofFile linkPath (text "old")] }
    watches := [{ loc := [text "w"], name := text "/w" }] }

/-- The file is written, and its event is handled. -/
def linkMoves : List Move :=
  [.write sharedPath (text "new"), .take, .watcherStep, .watcherStep, .watcherStep]

theorem isWatched_linkPath : IsWatched linkStart.watches linkPath :=
  ⟨[text "w"], text "link.py", by decide, by simp [isName_shared], _, List.mem_singleton_self _, rfl⟩

theorem ready_linkStart : Ready linkStart := by
  have hTree : linkStart.view.disk.IsTree := by
    have hDisk : linkStart.view.disk =
        raceStart.view.disk.insert ([text "w"] ++ [text "link.py"]) (.link (text "a.py")) := by
      decide +kernel
    rw [hDisk]
    exact isTree_raceStart.insert (by decide +kernel) isName_shared.2.2 (by decide +kernel)
  refine ready_of_tree hTree (by decide +kernel) rfl ?_
  show (linkStart.store.documents.map Held.path).Nodup
  decide

theorem onFiles_linkMoves : ∀ m ∈ linkMoves, m.OnFiles linkStart := by
  have hWatched : IsWatched linkStart.watches sharedPath := isWatched_sharedPath
  have hNoLink : ¬ linkStart.LinkAt sharedPath :=
    not_linkAt_of_file (show _ = some (Entry.file (text "old")) by decide +kernel)
  simp [linkMoves, Move.OnFiles, hWatched, hNoLink]

theorem linkMoves_stale :
    (linkStart.run linkMoves).Idle ∧ (linkStart.run linkMoves).Stale linkPath := by
  have hHeld : (linkStart.run linkMoves).store.get? linkPath =
      some (Held.ofFile linkPath (text "old")) := by decide +kernel
  have hCopy : (linkStart.run linkMoves).view.copy linkPath =
      some (Held.ofFile linkPath (text "new")) := by decide +kernel
  refine ⟨⟨by decide +kernel, by decide +kernel, by decide +kernel⟩, ?_⟩
  refine (State.stale_iff _ _).2 ⟨_, hHeld, rfl, ?_⟩
  rw [hCopy]
  decide

/-- Changes can be lost: at a file between the steps of a request's scan, and at
a link even when there is no request. -/
theorem changes_can_be_lost :
    (¬ ∀ (start : State) (moves : List Move) (path : Text), Ready start → start.Idle →
        IsWatched start.watches path → ¬ start.LinkAt path → Path.isPython path = true →
          ¬ start.Stale path → (∀ m ∈ moves, m.OnFiles start) → (start.run moves).Idle →
            ¬ (start.run moves).Stale path) ∧
      ¬ ∀ (start : State) (moves : List Move) (path : Text), Ready start → start.Idle →
        IsWatched start.watches path → Path.isPython path = true → ¬ start.Stale path →
          (∀ m ∈ moves, m.OnFiles start) → .requestStep ∉ moves → (start.run moves).Idle →
            ¬ (start.run moves).Stale path := by
  refine ⟨fun hNever => ?_, fun hNever => ?_⟩
  · exact hNever raceStart race sharedPath ready_raceStart raceStart_fresh.1 isWatched_sharedPath
      not_linkAt_sharedPath (by decide) raceStart_fresh.2 onFiles_race race_stale.1 race_stale.2
  · have hFresh : ¬ linkStart.Stale linkPath := not_stale_of_copy (by decide +kernel)
    exact hNever linkStart linkMoves linkPath ready_linkStart ⟨rfl, rfl, rfl⟩ isWatched_linkPath
      (by decide) hFresh onFiles_linkMoves (by decide) linkMoves_stale.1 linkMoves_stale.2

end Concurrent

end DottedNames
