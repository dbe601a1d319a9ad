import DottedNames.Proofs.Session
import DottedNames.Proofs.StoreLaws

/-!
# The editor's copies win

Nearly every step of a session can write documents or drop some. What none of
them may touch is a document that the editor has open, and only an opening or a
closing of the very path decides whether it is. `Spares` says of two stores that
the second came from the first without any such decision. It holds across every
operation but opening and closing, and it composes, so that the watcher's
compound reactions need no analysis of their own.

## Main results

* `Store.Spares` and its instances — scans, removals, loads and reactions to
  events leave the editor's copies alone.
* `editorCopy_run` — after a run the editor's copies are the last ones sent.
* `open_after_run_iff` — a document is open exactly when its last opening was
  not followed by a closing, and then it holds what that opening sent.
-/

namespace DottedNames

namespace Store

/-- The lines of a document that the editor has open. -/
def editorCopy (store : Store) (path : Text) : Option Document :=
  ((store.get? path).filter Held.isOpen).map Held.lines

/-- The editor's copies are the same in both stores. -/
def Spares (before after : Store) : Prop :=
  before.Sound → after.Sound ∧ ∀ path, after.editorCopy path = before.editorCopy path

theorem Spares.refl (store : Store) : Spares store store := fun h => ⟨h, fun _ => rfl⟩

theorem Spares.trans {a b c : Store} (hab : Spares a b) (hbc : Spares b c) : Spares a c := by
  intro hSound
  obtain ⟨hSoundB, hSameB⟩ := hab hSound
  obtain ⟨hSoundC, hSameC⟩ := hbc hSoundB
  exact ⟨hSoundC, fun path => (hSameC path).trans (hSameB path)⟩

/-- A store in which each path keeps its document or loses a closed one is
spared. -/
theorem spares_of_get? {before after : Store} (hSound : before.Sound → after.Sound)
    (hGet : before.Sound → ∀ path,
      (after.get? path).filter Held.isOpen = (before.get? path).filter Held.isOpen) :
    Spares before after := by
  intro h
  refine ⟨hSound h, fun path => ?_⟩
  rw [editorCopy, hGet h path, editorCopy]

theorem spares_commit (store : Store) (path content : Text) :
    Spares store (store.commit path content) := by
  refine spares_of_get? (fun h => h.commit path content) fun _ other => ?_
  rw [get?_commit]
  split
  · next hHere =>
      -- What the commit replaces is closed, and so is what it puts there.
      obtain ⟨rfl, hClosed⟩ := hHere
      rw [isOpen_eq_any] at hClosed
      cases hHeld : store.get? other with
      | none => rfl
      | some doc =>
          have hDoc : doc.isOpen = false := by simpa [hHeld] using hClosed
          simp [Option.filter_some, hDoc]
  · rfl

theorem spares_scanned (store : Store) (view : View) (path : Text) :
    Spares store (store.scanned view path) := by
  cases hRead : view.read path with
  | ok content =>
      rw [scanned_of_read hRead]
      exact spares_commit store path content
  | error failure =>
      rw [scanned_of_error hRead]
      exact Spares.refl store

private theorem filter_filter_isOpen (found : Option Held) :
    (found.filter Held.isOpen).filter Held.isOpen = found.filter Held.isOpen := by
  cases found with
  | none => rfl
  | some doc => by_cases hOpen : doc.isOpen = true <;> simp [Option.filter_some, hOpen]

theorem spares_remove (store : Store) (path : Text) : Spares store (store.remove path) := by
  refine spares_of_get? (fun h => h.remove path) fun h other => ?_
  rw [get?_remove h]
  split
  · exact filter_filter_isOpen _
  · rfl

theorem spares_removeBelow (store : Store) (dir : Text) : Spares store (store.removeBelow dir) := by
  refine spares_of_get? (fun h => h.dropWhere _) fun h other => ?_
  rw [get?_removeBelow h]
  split
  · exact filter_filter_isOpen _
  · rfl

theorem spares_linesOf (store : Store) (view : View) (path : Text) :
    Spares store (store.linesOf view path).2 := by
  unfold linesOf
  split
  · exact Spares.refl store
  · exact spares_scanned store view path

theorem spares_elementAt (store : Store) (view : View) (path : Text) (line : Int64) :
    Spares store (store.elementAt view path line).2 :=
  spares_linesOf store view path

/-- Opening a document decides its own path only. -/
theorem editorCopy_openDocument (store : Store) (path content other : Text) :
    (store.openDocument path content).editorCopy other =
      if path = other then some (Text.lines content) else store.editorCopy other := by
  rw [editorCopy, get?_openDocument]
  by_cases hSame : path = other
  · simp [hSame, Option.filter_some]
  · simp [hSame, Ne.symm hSame, editorCopy]

/-- Closing a document decides its own path only. -/
theorem editorCopy_close {store : Store} (h : store.Sound) (view : View) (path other : Text) :
    (store.close view path).editorCopy other =
      if path = other then none else store.editorCopy other := by
  rw [editorCopy, get?_close h]
  by_cases hSame : path = other
  · cases hRead : view.read path with
    | ok content => simp [hSame, Option.filter_some]
    | error failure => simp [hSame]
  · simp [hSame, Ne.symm hSame, editorCopy]

/-- An open document is stored as the editor's copy of its path. -/
theorem get?_of_editorCopy {store : Store} {path : Text} {copy : Document}
    (h : store.editorCopy path = some copy) :
    store.get? path = some { path, lines := copy, isOpen := true } := by
  obtain ⟨doc, hOpen, rfl⟩ := Option.map_eq_some_iff.1 h
  obtain ⟨hGet, hDoc⟩ := Option.filter_eq_some_iff.1 hOpen
  have hPath := path_of_get? hGet
  rw [hGet, ← hPath, ← hDoc]

theorem isOpen_iff_editorCopy (store : Store) (path : Text) :
    store.isOpen path = true ↔ ∃ copy, store.editorCopy path = some copy := by
  rw [isOpen_eq_any, editorCopy]
  cases store.get? path with
  | none => simp
  | some doc => by_cases hOpen : doc.isOpen = true <;> simp [Option.filter_some, hOpen]

end Store

/-! ## The watcher -/

namespace Workspace

theorem spares_absorb (ws : Workspace) (watches : Watches) (view : View) (survey : Survey) :
    ws.store.Spares (ws.absorb watches view survey).1.store := by
  show ws.store.Spares (survey.files.foldl (fun store path => store.scanned view path) ws.store)
  generalize ws.store = store
  induction survey.files generalizing store with
  | nil => exact Store.Spares.refl store
  | cons path paths ih => exact (Store.spares_scanned store view path).trans (ih _)

theorem spares_load {ws next : Workspace} {watches watches' : Watches} {view : View} {path : Text}
    (h : ws.load watches view path = .ok (next, watches')) : ws.store.Spares next.store := by
  unfold load at h
  cases hStart : Survey.start view ws.root path with
  | error failure => simp [hStart, Except.map] at h
  | ok survey =>
      have hNext : ws.absorb watches view survey = (next, watches') := by
        simpa [hStart, Except.map] using h
      have hSpares := spares_absorb ws watches view survey
      rwa [hNext] at hSpares

theorem spares_loaded (ws : Workspace) (watches : Watches) (view : View) (path : Text) :
    ws.store.Spares (ws.loaded watches view path).1.store := by
  unfold loaded
  cases hLoad : ws.load watches view path with
  | error failure => exact Store.Spares.refl ws.store
  | ok next => exact spares_load hLoad

theorem spares_forget (ws : Workspace) (path : Text) : ws.store.Spares (ws.forget path).store := by
  unfold forget
  split
  · exact (Store.spares_remove ws.store path).trans (Store.spares_removeBelow _ path)
  · exact Store.spares_removeBelow ws.store path

theorem spares_handle (ws : Workspace) (watches : Watches) (view : View) (event : Event) :
    ws.store.Spares (ws.handle watches view event).1.store := by
  unfold handle
  split
  · exact spares_forget ws event.path
  · split
    · exact Store.Spares.refl ws.store
    · split
      · exact Store.Spares.refl ws.store
      · split
        · exact spares_loaded ws watches view event.path
        · exact Store.Spares.refl ws.store
      · split
        · exact Store.spares_scanned ws.store view event.path
        · exact Store.Spares.refl ws.store

theorem spares_handleAll (ws : Workspace) (watches : Watches) (view : View) (events : List Event) :
    ws.store.Spares (ws.handleAll watches view events).1.store := by
  unfold handleAll
  induction events generalizing ws watches with
  | nil => exact Store.Spares.refl ws.store
  | cons event events ih => exact (spares_handle ws watches view event).trans (ih _ _)

theorem spares_react (ws : Workspace) (watches : Watches) (view : View) (notices : List Notice)
    (naming : Naming) : ws.store.Spares (ws.react watches view notices naming).1.store :=
  spares_handleAll ws _ view _

end Workspace

namespace Watcher

theorem spares_start {watcher watcher' : Watcher} {ws next : Workspace} {view : View}
    (h : watcher.start ws view = .ok (next, watcher')) : ws.store.Spares next.store := by
  unfold start at h
  cases hLoad : ws.load watcher.watches view ws.root with
  | error failure => simp [hLoad] at h
  | ok loaded =>
      obtain ⟨rfl, -⟩ : loaded.1 = next ∧ _ := by simpa [hLoad] using h
      exact Workspace.spares_load hLoad

theorem spares_observe (watcher : Watcher) (ws : Workspace) (view : View)
    (notices : List Notice) : ws.store.Spares (watcher.observe ws view notices).1.store := by
  unfold observe
  split
  · exact Workspace.spares_react ws watcher.watches view notices .bySlash
  · exact Store.Spares.refl ws.store

end Watcher

namespace Session

/-! ## Runs -/

/-- What a step makes of the editor's copy of a path: only an opening and a
closing of that path count. -/
def Step.copyAfter (path : Text) (now : Option Document) : Step → Option Document
  | .openDocument opened content => if opened = path then some (Text.lines content) else now
  | .close closed => if closed = path then none else now
  | _ => now

/-- One step: the store stays sound, and the editor's copies are as the step
says. -/
theorem editorCopy_step (s : Session) (x : Step) (h : s.store.Sound) :
    (s.step x).store.Sound ∧
      ∀ path, (s.step x).store.editorCopy path = x.copyAfter path (s.store.editorCopy path) := by
  cases x with
  | openDocument opened content =>
      exact ⟨h.openDocument opened content, fun path =>
        Store.editorCopy_openDocument s.store opened content path⟩
  | close closed =>
      exact ⟨h.close s.view closed, fun path => Store.editorCopy_close h s.view closed path⟩
  | scan scanned => exact Store.spares_scanned s.store s.view scanned h
  | remove removed => exact Store.spares_remove s.store removed h
  | removeBelow dir => exact Store.spares_removeBelow s.store dir h
  | get got => exact Store.Spares.refl s.store h
  | lines asked => exact Store.spares_linesOf s.store s.view asked h
  | elementAt asked line => exact Store.spares_elementAt s.store s.view asked line h
  | load loaded => exact Workspace.spares_loaded s.workspace s.watcher.watches s.view loaded h
  | handle event => exact Workspace.spares_handle s.workspace s.watcher.watches s.view event h
  | start =>
      simp only [step]
      cases hStart : s.watcher.start s.workspace s.view with
      | error failure => exact Store.Spares.refl s.store h
      | ok next => exact Watcher.spares_start hStart h
  | stop => exact Store.Spares.refl s.store h
  | change view notices => exact Watcher.spares_observe s.watcher s.workspace view notices h

/-- A run: the editor's copies are those that its steps lead to, one after the
other. -/
theorem editorCopy_run (s : Session) (steps : List Step) (h : s.store.Sound) :
    (s.run steps).store.Sound ∧
      ∀ path, (s.run steps).store.editorCopy path =
        steps.foldl (Step.copyAfter path) (s.store.editorCopy path) := by
  induction steps generalizing s with
  | nil => exact ⟨h, fun _ => rfl⟩
  | cons x steps ih =>
      obtain ⟨hSound, hStep⟩ := editorCopy_step s x h
      obtain ⟨hRunSound, hRun⟩ := ih (s.step x) hSound
      refine ⟨hRunSound, fun path => ?_⟩
      rw [run_cons, hRun path, hStep path, List.foldl_cons]

/-! ## The last opening -/

/-- Neither opens nor closes the path. -/
def LeavesAlone (path : Text) (steps : List Step) : Prop :=
  (∀ content, Step.openDocument path content ∉ steps) ∧ Step.close path ∉ steps

/-- The last opening of the path among some steps sent this content, and no
closing of the path came after it. -/
def LastOpened (path content : Text) (steps : List Step) : Prop :=
  ∃ before after, steps = before ++ Step.openDocument path content :: after ∧
    LeavesAlone path after

theorem leavesAlone_cons {path : Text} {x : Step} {steps : List Step} :
    LeavesAlone path (x :: steps) ↔
      (∀ content, x ≠ .openDocument path content) ∧ x ≠ .close path ∧ LeavesAlone path steps := by
  simp only [LeavesAlone, List.mem_cons, not_or, ne_eq]
  constructor
  · rintro ⟨hOpen, hHead, hClose⟩
    exact ⟨fun c hEq => (hOpen c).1 hEq.symm, fun hEq => hHead hEq.symm,
      fun c => (hOpen c).2, hClose⟩
  · rintro ⟨hHeadOpen, hHeadClose, hOpen, hClose⟩
    exact ⟨fun c => ⟨fun hEq => hHeadOpen c hEq.symm, hOpen c⟩,
      fun hEq => hHeadClose hEq.symm, hClose⟩

theorem lastOpened_cons {path content : Text} {x : Step} {steps : List Step} :
    LastOpened path content (x :: steps) ↔
      LastOpened path content steps ∨
        x = .openDocument path content ∧ LeavesAlone path steps := by
  constructor
  · rintro ⟨before, after, hSteps, hAfter⟩
    cases before with
    | nil =>
        obtain ⟨rfl, rfl⟩ := List.cons.inj hSteps
        exact Or.inr ⟨rfl, hAfter⟩
    | cons y before =>
        obtain ⟨rfl, rfl⟩ := List.cons.inj hSteps
        exact Or.inl ⟨before, after, rfl, hAfter⟩
  · rintro (⟨before, after, rfl, hAfter⟩ | ⟨rfl, hAfter⟩)
    · exact ⟨x :: before, after, rfl, hAfter⟩
    · exact ⟨[], steps, rfl, hAfter⟩

/-- A step that neither opens nor closes the path leaves its copy as it is. -/
theorem copyAfter_of_ne {path : Text} {x : Step} (hOpen : ∀ content, x ≠ .openDocument path content)
    (hClose : x ≠ .close path) (now : Option Document) : x.copyAfter path now = now := by
  cases x with
  | openDocument opened content =>
      have hNe : opened ≠ path := fun hEq => hOpen content (hEq ▸ rfl)
      exact if_neg hNe
  | close closed =>
      have hNe : closed ≠ path := fun hEq => hClose (hEq ▸ rfl)
      exact if_neg hNe
  | _ => rfl

/-- Where steps lead from a copy: to what the last opening sent, or, when they
leave the path alone, to the copy there was. -/
theorem foldl_copyAfter_eq_some_iff (path : Text) (steps : List Step) (now : Option Document)
    (copy : Document) :
    steps.foldl (Step.copyAfter path) now = some copy ↔
      (∃ content, LastOpened path content steps ∧ copy = Text.lines content) ∨
        LeavesAlone path steps ∧ now = some copy := by
  induction steps generalizing now with
  | nil => simp [LastOpened, LeavesAlone]
  | cons x steps ih =>
      rw [List.foldl_cons, ih]
      simp only [lastOpened_cons, leavesAlone_cons]
      by_cases hOpen : ∃ content, x = .openDocument path content
      · obtain ⟨content, rfl⟩ := hOpen
        simp only [Step.copyAfter, if_true, Option.some.injEq, Step.openDocument.injEq, true_and]
        constructor
        · rintro (⟨sent, hSent, rfl⟩ | ⟨hAlone, rfl⟩)
          · exact Or.inl ⟨sent, Or.inl hSent, rfl⟩
          · exact Or.inl ⟨content, Or.inr ⟨rfl, hAlone⟩, rfl⟩
        · rintro (⟨sent, hSent | ⟨rfl, hAlone⟩, rfl⟩ | ⟨⟨hNot, -⟩, -⟩)
          · exact Or.inl ⟨sent, hSent, rfl⟩
          · exact Or.inr ⟨hAlone, rfl⟩
          · exact absurd rfl (hNot content)
      · have hNotOpen : ∀ content, x ≠ .openDocument path content :=
          fun content hEq => hOpen ⟨content, hEq⟩
        by_cases hClose : x = .close path
        · subst hClose
          simp [Step.copyAfter]
        · rw [copyAfter_of_ne hNotOpen hClose]
          simp [hNotOpen, hClose]

/-! ## The main result -/

/-- After any run of a fresh session, with the disk changing in any way, a
document is open exactly when the last opening of its path was not followed by
a closing; and then it is the copy which that opening sent. -/
theorem open_after_run_iff (view : View) (root : Text) (steps : List Step) (path : Text) :
    (((fresh view root).run steps).store.isOpen path = true ↔
        ∃ content, LastOpened path content steps) ∧
      ∀ content, LastOpened path content steps →
        ((fresh view root).run steps).store.get? path =
          some { path, lines := Text.lines content, isOpen := true } := by
  have hCopy : ((fresh view root).run steps).store.editorCopy path =
      steps.foldl (Step.copyAfter path) none :=
    (editorCopy_run (fresh view root) steps Store.sound_empty).2 path
  have hLast : ∀ copy, ((fresh view root).run steps).store.editorCopy path = some copy ↔
      ∃ content, LastOpened path content steps ∧ copy = Text.lines content := by
    intro copy
    rw [hCopy, foldl_copyAfter_eq_some_iff]
    simp
  generalize ((fresh view root).run steps).store = store at hLast
  constructor
  · rw [Store.isOpen_iff_editorCopy]
    constructor
    · rintro ⟨copy, hSome⟩
      obtain ⟨content, hContent, -⟩ := (hLast copy).1 hSome
      exact ⟨content, hContent⟩
    · rintro ⟨content, hContent⟩
      exact ⟨Text.lines content, (hLast _).2 ⟨content, hContent, rfl⟩⟩
  · intro content hContent
    exact Store.get?_of_editorCopy ((hLast _).2 ⟨content, hContent, rfl⟩)

end Session

end DottedNames
