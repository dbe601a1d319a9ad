import DottedNames.Proofs.Reaction
import Mathlib.Data.List.Nodup

/-!
# Where closed documents come from

A closed document is a copy of what was read from the disk. To say which reading it
is a copy of, the steps of a session are written down act by act: what the editor
sends, what is read from the disk and what is dropped. A step of the watcher can be
many acts, one for each file of a tree that it loads and for each event it hears of.
Replaying the acts gives the documents of the session, so nothing is left out that
puts a document into the store or takes one out.

An act concerns the path it names, and dropping what is below a directory concerns
all paths there. Acts that do not concern a path leave it alone. So for a closed
document there is one act to look for: the last that concerns its path. It can only be
a reading, made while the editor did not have the document open. An opening would
leave the document open, and a dropping would leave no closed document behind.

## Main results

* `Session.store_step`, `Session.store_run` — the acts account for the store.
* `Session.sees_of_read` — what an act says was read is what the disk had.
* `Act.last_reading` — the last act that concerns a closed document.
* `Session.documents_come_from_readings` — the documents of every session.
-/

namespace DottedNames

/-- Something that is done to the documents of a session. -/
inductive Act where
  /-- The editor sends its copy. -/
  | opened (path content : Text)
  /-- A path is read from the disk, with success, for the store to take over. -/
  | read (path content : Text)
  /-- A document is dropped, open or not. -/
  | closed (path : Text)
  /-- A document is dropped if it is closed. -/
  | removed (path : Text)
  /-- The closed documents below a directory are dropped. -/
  | removedBelow (dir : Text)
deriving DecidableEq, Repr

namespace Act

/-- The documents after an act. -/
def on (store : Store) : Act → Store
  | .opened path content => store.openDocument path content
  | .read path content => store.commit path content
  | .closed path => store.dropWhere fun d => d.path == path
  | .removed path => store.remove path
  | .removedBelow dir => store.removeBelow dir

/-- The documents after some acts in order. -/
def replay (store : Store) (acts : List Act) : Store := acts.foldl on store

/-- Whether an act is about a path. -/
def Concerns (path : Text) : Act → Prop
  | .opened named _ | .read named _ | .closed named | .removed named => named = path
  | .removedBelow dir => (Store.insidePrefix dir).isPrefixOf path = true

instance (path : Text) : DecidablePred (Concerns path)
  | .opened named _ | .read named _ | .closed named | .removed named =>
    inferInstanceAs (Decidable (named = path))
  | .removedBelow dir =>
    inferInstanceAs (Decidable ((Store.insidePrefix dir).isPrefixOf path = true))

theorem replay_append (store : Store) (acts more : List Act) :
    replay store (acts ++ more) = replay (replay store acts) more := by
  simp [replay]

/-! ## The acts of each operation -/

/-- Reading paths one after the other. Where reading fails nothing is done. -/
def readings (view : View) (paths : List Text) : List Act :=
  paths.filterMap fun path =>
    match view.read path with
    | .ok content => some (.read path content)
    | .error _ => none

/-- Loading the tree at a path. -/
def loading (view : View) (root path : Text) : List Act :=
  match Survey.start view root path with
  | .ok survey => readings view survey.files
  | .error _ => []

/-- Forgetting what is at and below a path. -/
def forgetting (path : Text) : List Act :=
  (if Path.isPython path then [.removed path] else []) ++ [.removedBelow path]

/-- Reacting to an event. -/
def reacting (view : View) (root : Text) (event : Event) : List Act :=
  if event.signals.remove || event.signals.rename then forgetting event.path
  else if !(event.signals.create || event.signals.write) then []
  else match view.follow event.path with
    | .error _ => []
    | .ok .directory =>
      if event.signals.create && !Survey.isSkipped (Path.base event.path) then
        loading view root event.path
      else []
    | .ok _ => if Path.isPython event.path then readings view [event.path] else []

end Act

namespace Session

/-- The disk as it is during a step. -/
def sees (s : Session) : Step → View
  | .change view _ => view
  | _ => s.view

/-- What a step does to the documents, act by act. -/
def acts (s : Session) : Step → List Act
  | .openDocument path content => [.opened path content]
  | .close path => .closed path :: Act.readings s.view [path]
  | .scan path => Act.readings s.view [path]
  | .remove path => [.removed path]
  | .removeBelow dir => [.removedBelow dir]
  | .get _ => []
  | .lines path | .elementAt path _ =>
    if (s.store.get? path).isSome then [] else Act.readings s.view [path]
  | .load path => Act.loading s.view s.workspace.root path
  | .handle event => Act.reacting s.view s.workspace.root event
  | .start => Act.loading s.view s.workspace.root s.workspace.root
  | .stop => []
  | .change view notices =>
    if s.watcher.running then
      (s.watcher.watches.eventsOf notices).1.flatMap (Act.reacting view s.workspace.root)
    else []

/-- What the steps of a run do to the documents, act by act. -/
def journal (s : Session) : List Step → List Act
  | [] => []
  | x :: steps => s.acts x ++ (s.step x).journal steps

end Session

/-! ## The acts account for the store -/

namespace Act

variable {view : View}

theorem replay_reading (store : Store) (view : View) (path : Text) :
    replay store (readings view [path]) = store.scanned view path := by
  cases hRead : view.read path with
  | ok content =>
      rw [Store.scanned_of_read hRead]
      simp [readings, hRead, replay, on]
  | error failure =>
      rw [Store.scanned_of_error hRead]
      simp [readings, hRead, replay]

theorem replay_readings (store : Store) (view : View) (paths : List Text) :
    replay store (readings view paths) =
      paths.foldl (fun store path => store.scanned view path) store := by
  induction paths generalizing store with
  | nil => rfl
  | cons path paths ih =>
      have hSplit : readings view (path :: paths) =
          readings view [path] ++ readings view paths := by
        simp only [readings, ← List.filterMap_append, List.singleton_append]
      rw [hSplit, replay_append, replay_reading, ih, List.foldl_cons]

theorem replay_loading (ws : Workspace) (watches : Watches) (view : View) (path : Text) :
    replay ws.store (loading view ws.root path) = (ws.loaded watches view path).1.store := by
  unfold loading Workspace.loaded Workspace.load
  cases Survey.start view ws.root path with
  | error failure => rfl
  | ok survey => exact replay_readings ws.store view survey.files

theorem replay_forgetting (ws : Workspace) (path : Text) :
    replay ws.store (forgetting path) = (ws.forget path).store := by
  unfold forgetting Workspace.forget
  split <;> rfl

theorem replay_reacting (ws : Workspace) (watches : Watches) (view : View) (event : Event) :
    replay ws.store (reacting view ws.root event) = (ws.handle watches view event).1.store := by
  unfold reacting Workspace.handle
  split
  · exact replay_forgetting ws event.path
  · split
    · rfl
    · cases view.follow event.path with
      | error fault => rfl
      | ok entry =>
          cases entry with
          | directory =>
              simp only
              split
              · exact replay_loading ws watches view event.path
              · rfl
          | file content =>
              simp only
              split
              · exact replay_reading ws.store view event.path
              · rfl
          | link target =>
              simp only
              split
              · exact replay_reading ws.store view event.path
              · rfl

theorem replay_reactions (ws : Workspace) (watches : Watches) (view : View)
    (events : List Event) :
    replay ws.store (events.flatMap (reacting view ws.root)) =
      (ws.handleAll watches view events).1.store := by
  induction events generalizing ws watches with
  | nil => rfl
  | cons event events ih =>
      have hRoot : (ws.handle watches view event).1.root = ws.root := Workspace.root_handle event
      rw [List.flatMap_cons, replay_append, replay_reacting ws watches, Workspace.handleAll_cons,
        ← ih, hRoot]

/-- Readings are of what the disk has. -/
theorem read_of_mem_readings {paths : List Text} {path content : Text}
    (h : .read path content ∈ readings view paths) : view.read path = .ok content := by
  obtain ⟨named, -, hAct⟩ := List.mem_filterMap.1 h
  cases hRead : view.read named with
  | error failure => simp [hRead] at hAct
  | ok found =>
      rw [hRead] at hAct
      obtain ⟨rfl, rfl⟩ := Act.read.inj (Option.some.inj hAct)
      exact hRead

theorem read_of_mem_loading {root start path content : Text}
    (h : .read path content ∈ loading view root start) : view.read path = .ok content := by
  unfold loading at h
  split at h
  · exact read_of_mem_readings h
  · exact absurd h (by simp)

theorem read_of_mem_reacting {root path content : Text} {event : Event}
    (h : .read path content ∈ reacting view root event) : view.read path = .ok content := by
  unfold reacting at h
  split at h
  · -- nothing is read where something is gone
    unfold forgetting at h
    split at h <;> simp at h
  · split at h
    · exact absurd h (by simp)
    · split at h
      · exact absurd h (by simp)
      · split at h
        · exact read_of_mem_loading h
        · exact absurd h (by simp)
      · split at h
        · exact read_of_mem_readings h
        · exact absurd h (by simp)

end Act

namespace Session

/-- The acts of a step lead from the documents before it to those after it. -/
theorem store_step (s : Session) (x : Step) :
    (s.step x).store = Act.replay s.store (s.acts x) := by
  cases x with
  | openDocument path content => rfl
  | close path => exact (Act.replay_reading _ s.view path).symm
  | scan path => exact (Act.replay_reading s.store s.view path).symm
  | remove path => rfl
  | removeBelow dir => rfl
  | get path => rfl
  | lines path | elementAt path line =>
      simp only [step, acts, store_withStore, Store.elementAt, Store.linesOf]
      cases hHeld : s.store.get? path with
      | some doc => simp [Act.replay]
      | none => simp [Act.replay_reading]
  | load path =>
      exact (Act.replay_loading s.workspace s.watcher.watches s.view path).symm
  | handle event =>
      exact (Act.replay_reacting s.workspace s.watcher.watches s.view event).symm
  | start =>
      have hLoaded := Act.replay_loading s.workspace s.watcher.watches s.view s.workspace.root
      refine Eq.trans ?_ hLoaded.symm
      simp only [step, Watcher.start, Workspace.loaded]
      cases s.workspace.load s.watcher.watches s.view s.workspace.root <;> rfl
  | stop => rfl
  | change view notices =>
      simp only [step, acts, Watcher.observe]
      split
      · exact (Act.replay_reactions s.workspace _ view _).symm
      · rfl

/-- The acts of a run lead from the documents before it to those after it. -/
theorem store_run (s : Session) (steps : List Step) :
    (s.run steps).store = Act.replay s.store (s.journal steps) := by
  induction steps generalizing s with
  | nil => rfl
  | cons x steps ih => rw [run_cons, ih, store_step, journal, Act.replay_append]

/-- What an act of a step says was read is what the disk had during the step. -/
theorem sees_of_read {s : Session} {x : Step} {path content : Text}
    (h : .read path content ∈ s.acts x) : (s.sees x).read path = .ok content := by
  cases x with
  | openDocument opened sent => exact absurd h (by simp [acts])
  | close closed =>
      obtain hClosed | hRead := List.mem_cons.1 h
      · exact absurd hClosed (by simp)
      · exact Act.read_of_mem_readings hRead
  | scan scanned => exact Act.read_of_mem_readings h
  | remove removed => exact absurd h (by simp [acts])
  | removeBelow dir => exact absurd h (by simp [acts])
  | get got => exact absurd h (by simp [acts])
  | lines asked | elementAt asked line =>
      simp only [acts] at h
      split at h
      · exact absurd h (by simp)
      · exact Act.read_of_mem_readings h
  | load loaded => exact Act.read_of_mem_loading h
  | handle event => exact Act.read_of_mem_reacting h
  | start => exact Act.read_of_mem_loading h
  | stop => exact absurd h (by simp [acts])
  | change view notices =>
      simp only [acts] at h
      split at h
      · obtain ⟨event, -, hEvent⟩ := List.mem_flatMap.1 h
        exact Act.read_of_mem_reacting hEvent
      · exact absurd h (by simp)

/-- An act of a run is an act of one of its steps. -/
theorem journal_eq_append_cons {s : Session} {steps : List Step} {before after : List Act}
    {act : Act} (h : s.journal steps = before ++ act :: after) :
    ∃ earlier x later first rest, steps = earlier ++ x :: later ∧
      (s.run earlier).acts x = first ++ act :: rest ∧ before = s.journal earlier ++ first ∧
      after = rest ++ (s.run (earlier ++ [x])).journal later := by
  induction steps generalizing s before with
  | nil => exact absurd h (by simp [journal])
  | cons x steps ih =>
      rw [journal] at h
      obtain ⟨gap, rfl, hRest⟩ | ⟨gap, hHere, hAfter⟩ := List.append_eq_append_iff.1 h
      · obtain ⟨earlier, y, later, first, rest, rfl, hActs, rfl, hAfter⟩ := ih hRest
        exact ⟨x :: earlier, y, later, first, rest, rfl, hActs, by simp [journal], hAfter⟩
      · cases gap with
        | nil =>
            -- the step ends just before the act
            have hRest : (s.step x).journal steps = [] ++ act :: after := by simpa using hAfter.symm
            obtain ⟨earlier, y, later, first, rest, rfl, hActs, hBefore, hAfter⟩ := ih hRest
            obtain ⟨hEarlier, rfl⟩ := List.append_eq_nil_iff.1 hBefore.symm
            exact ⟨x :: earlier, y, later, [], rest, rfl, hActs,
              by simpa [journal, hEarlier] using hHere.symm, hAfter⟩
        | cons found gap =>
            obtain ⟨rfl, rfl⟩ := List.cons.inj hAfter
            exact ⟨[], x, steps, before, gap, rfl, hHere, rfl, rfl⟩

end Session

/-! ## The last act that concerns a document -/

namespace Act

theorem sound_on {store : Store} (h : store.Sound) (act : Act) : (act.on store).Sound := by
  cases act with
  | opened path content => exact h.openDocument path content
  | read path content => exact h.commit path content
  | closed path => exact h.dropWhere _
  | removed path => exact h.remove path
  | removedBelow dir => exact h.dropWhere _

/-- An act leaves every path alone that it does not concern. -/
theorem get?_on_of_not_concerns {store : Store} (h : store.Sound) {act : Act} {path : Text}
    (hOther : ¬ act.Concerns path) : (act.on store).get? path = store.get? path := by
  cases act with
  | opened named content =>
      rw [on, Store.get?_openDocument, if_neg fun hSame => hOther hSame.symm]
  | read named content =>
      rw [on, Store.get?_commit, if_neg fun hSame => hOther hSame.1.symm]
  | closed named =>
      rw [on, Store.get?_dropWhere h]
      cases hHeld : store.get? path with
      | none => rfl
      | some doc =>
          have hPath : doc.path ≠ named := Store.path_of_get? hHeld ▸ Ne.symm hOther
          simp [Option.filter_some, hPath]
  | removed named => rw [on, Store.get?_remove h, if_neg fun hSame => hOther hSame.symm]
  | removedBelow dir =>
      have hOutside : ¬ (Store.insidePrefix dir).isPrefixOf path = true := hOther
      rw [on, Store.get?_removeBelow h, if_neg hOutside]

/-- What leaves a closed document under a path that it concerns is a reading of the
path, made while no open document was there. -/
theorem reading_of_concerns {store : Store} (h : store.Sound) {act : Act} {path : Text}
    {doc : Held} (hConcerns : act.Concerns path) (hHeld : (act.on store).get? path = some doc)
    (hClosed : doc.isOpen = false) :
    ∃ content, act = .read path content ∧ store.isOpen path = false ∧
      doc.lines = Text.lines content := by
  have hNotOpen : ∀ found : Option Held, found.filter Held.isOpen ≠ some doc := by
    intro found hFound
    have hOpen := (Option.filter_eq_some_iff.1 hFound).2
    exact absurd (hClosed.symm.trans hOpen) (by simp)
  cases act with
  | opened named content =>
      obtain rfl : named = path := hConcerns
      rw [on, Store.get?_openDocument, if_pos rfl] at hHeld
      exact absurd hClosed (by simp [← Option.some.inj hHeld])
  | read named content =>
      obtain rfl : named = path := hConcerns
      rw [on, Store.get?_commit] at hHeld
      by_cases hOpen : store.isOpen named = false
      · rw [if_pos ⟨rfl, hOpen⟩] at hHeld
        exact ⟨content, rfl, hOpen, by rw [← Option.some.inj hHeld]⟩
      · rw [if_neg fun hBoth => hOpen hBoth.2] at hHeld
        exact absurd hOpen (by simp [Store.isOpen_eq_any, hHeld, hClosed])
  | closed named =>
      obtain rfl : named = path := hConcerns
      rw [on, Store.get?_dropWhere h] at hHeld
      obtain ⟨hWas, hKept⟩ := Option.filter_eq_some_iff.1 hHeld
      exact absurd hKept (by simp [Store.path_of_get? hWas])
  | removed named =>
      obtain rfl : named = path := hConcerns
      rw [on, Store.get?_remove h, if_pos rfl] at hHeld
      exact absurd hHeld (hNotOpen _)
  | removedBelow dir =>
      have hInside : (Store.insidePrefix dir).isPrefixOf path = true := hConcerns
      rw [on, Store.get?_removeBelow h, if_pos hInside] at hHeld
      exact absurd hHeld (hNotOpen _)

/-- After some acts a closed document is the copy made by the last act that concerns
its path, a reading, or, when none does, the document there was before. -/
theorem last_reading {store : Store} (h : store.Sound) {acts : List Act} {path : Text}
    {doc : Held} (hHeld : (replay store acts).get? path = some doc)
    (hClosed : doc.isOpen = false) :
    (∃ before content after, acts = before ++ .read path content :: after ∧
        (replay store before).isOpen path = false ∧ doc.lines = Text.lines content ∧
        ∀ act ∈ after, ¬ act.Concerns path) ∨
      store.get? path = some doc ∧ ∀ act ∈ acts, ¬ act.Concerns path := by
  induction acts generalizing store with
  | nil => exact Or.inr ⟨hHeld, by simp⟩
  | cons act acts ih =>
      obtain ⟨before, content, after, rfl, hOpen, hLines, hLast⟩ | ⟨hNext, hNone⟩ :=
        ih (sound_on h act) hHeld
      · exact Or.inl ⟨act :: before, content, after, rfl, hOpen, hLines, hLast⟩
      · by_cases hConcerns : act.Concerns path
        · obtain ⟨content, rfl, hOpen, hLines⟩ := reading_of_concerns h hConcerns hNext hClosed
          exact Or.inl ⟨[], content, acts, rfl, hOpen, hLines, hNone⟩
        · rw [get?_on_of_not_concerns h hConcerns] at hNext
          refine Or.inr ⟨hNext, fun other hOther => ?_⟩
          obtain rfl | hLater := List.mem_cons.1 hOther
          · exact hConcerns
          · exact hNone other hLater

end Act

/-! ## The documents of a session -/

/-- Under distinct paths every document is found under its own. -/
theorem Store.get?_of_mem {store : Store} (h : store.Sound) {doc : Held}
    (hMem : doc ∈ store.documents) : store.get? doc.path = some doc := by
  cases hHeld : store.get? doc.path with
  | none => exact absurd (List.find?_eq_none.1 hHeld doc hMem) (by simp)
  | some found =>
      have hFound : found ∈ store.documents := List.mem_of_find?_eq_some hHeld
      have hSame : found = doc := List.inj_on_of_nodup_map h hFound hMem (path_of_get? hHeld)
      rw [hSame]

namespace Session

/-- The last thing in a run that concerns a path is that it is read, with success and
while no open document is there. The step that does it may do more, before and after. -/
def LastRead (s : Session) (steps : List Step) (path content : Text) : Prop :=
  ∃ earlier x later first rest, steps = earlier ++ x :: later ∧
    (s.run earlier).acts x = first ++ .read path content :: rest ∧
    ((s.run earlier).sees x).read path = .ok content ∧
    (Act.replay (s.run earlier).store first).isOpen path = false ∧
    ∀ act ∈ rest ++ (s.run (earlier ++ [x])).journal later, ¬ act.Concerns path

variable {view : View} {root : Text} {steps : List Step} {path : Text} {doc : Held}

theorem lastRead_of_closed (hHeld : ((fresh view root).run steps).store.get? path = some doc)
    (hClosed : doc.isOpen = false) :
    ∃ content, (fresh view root).LastRead steps path content ∧ doc.lines = Text.lines content := by
  have hSound : (fresh view root).store.Sound := Store.sound_empty
  rw [store_run] at hHeld
  obtain ⟨before, content, after, hJournal, hOpen, hLines, hLast⟩ | ⟨hEmpty, -⟩ :=
    Act.last_reading hSound hHeld hClosed
  · obtain ⟨earlier, x, later, first, rest, hSteps, hActs, rfl, rfl⟩ :=
      journal_eq_append_cons hJournal
    rw [Act.replay_append, ← store_run] at hOpen
    have hRead : (((fresh view root).run earlier).sees x).read path = .ok content :=
      sees_of_read (by simp [hActs])
    exact ⟨content, ⟨earlier, x, later, first, rest, hSteps, hActs, hRead, hOpen, hLast⟩, hLines⟩
  · exact absurd hEmpty (by simp [fresh, store, Store.get?_empty])

/-- Every document holds the lines of some text: one that was read or one that the
editor sent. -/
theorem lines_of_document (hHeld : ((fresh view root).run steps).store.get? path = some doc) :
    ∃ content, doc.lines = Text.lines content := by
  cases hOpen : doc.isOpen with
  | false =>
      obtain ⟨content, -, hLines⟩ := lastRead_of_closed hHeld hOpen
      exact ⟨content, hLines⟩
  | true =>
      have hCopy : ((fresh view root).run steps).store.editorCopy path = some doc.lines := by
        simp [Store.editorCopy, hHeld, Option.filter_some, hOpen]
      rw [(editorCopy_run (fresh view root) steps Store.sound_empty).2 path,
        foldl_copyAfter_eq_some_iff] at hCopy
      obtain ⟨content, -, hLines⟩ | ⟨-, hEmpty⟩ := hCopy
      · exact ⟨content, hLines⟩
      · exact absurd hEmpty (by simp [fresh, store, Store.editorCopy, Store.get?_empty])

/-- The documents of a session that began with none, after any steps and with the disk
changing in any way. The acts of a step are all it does to the documents, and what
they say was read is what the disk had. Every document is stored under its own path
and has lines, none with a newline in it. And the lines of a closed document are those
of the content that was read when its path was last read while it was not open;
nothing since has dropped it. -/
theorem documents_come_from_readings (view : View) (root : Text) (steps : List Step) :
    (∀ (s : Session) (x : Step), (s.step x).store = Act.replay s.store (s.acts x) ∧
      ∀ path content, .read path content ∈ s.acts x → (s.sees x).read path = .ok content) ∧
    (∀ doc ∈ ((fresh view root).run steps).store.documents,
      ((fresh view root).run steps).store.get? doc.path = some doc ∧
        doc.lines ≠ [] ∧ ∀ line ∈ doc.lines, Byte.newline ∉ line) ∧
    ∀ path doc, ((fresh view root).run steps).store.get? path = some doc → doc.isOpen = false →
      ∃ content, (fresh view root).LastRead steps path content ∧
        doc.lines = Text.lines content := by
  have hSound : ((fresh view root).run steps).store.Sound :=
    (editorCopy_run (fresh view root) steps Store.sound_empty).1
  refine ⟨fun s x => ⟨s.store_step x, fun _ _ => sees_of_read⟩, fun doc hMem => ?_,
    fun path doc => lastRead_of_closed⟩
  have hHeld := Store.get?_of_mem hSound hMem
  obtain ⟨content, hLines⟩ := lines_of_document hHeld
  rw [hLines]
  exact ⟨hHeld, Text.lines_ne_nil content, Text.newline_not_mem content⟩

/-- A disk with one source file. -/
def oneFile (content : Text) : View :=
  { disk := (Disk.apply {} [.write (text "/w/a.py") content]).disk }

/-- The file is scanned, changes, and is taken over by the editor, which gives it back.
In between its directory is reported gone. -/
def handedBack : List Step :=
  [.scan (text "/w/a.py"), .change (oneFile (text "b")) [],
    .openDocument (text "/w/a.py") (text "c"), .removeBelow (text "/w"), .close (text "/w/a.py")]

/-- What the document holds in the end was read when the editor gave it back. -/
theorem document_of_handedBack :
    ∃ content, (fresh (oneFile (text "a")) (text "/w")).LastRead handedBack (text "/w/a.py")
      content ∧ [text "b"] = Text.lines content := by
  have hHeld : ((fresh (oneFile (text "a")) (text "/w")).run handedBack).store.get?
      (text "/w/a.py") = some ⟨text "/w/a.py", [text "b"], false⟩ := by decide +kernel
  exact (documents_come_from_readings (oneFile (text "a")) (text "/w") handedBack).2.2
    (text "/w/a.py") ⟨text "/w/a.py", [text "b"], false⟩ hHeld rfl

end Session

end DottedNames
