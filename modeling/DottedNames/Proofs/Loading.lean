import DottedNames.Proofs.Reaction
import DottedNames.Proofs.SurveyReach
import Mathlib.Control.Monad.Basic

/-!
# What loading a tree takes over

Loading goes by what directories list: an entry that is listed as a directory is entered
under the joined path, and one that is listed as anything else is read under it. Here
this is compared with what the joined paths show by themselves. A directory is `Entered`
if its path can be inspected and shows a directory, the start and every directory on the
way included, and none is passed over; a Python file is `Offered` if it is something
else in such a directory, or the start.

For a settled start the two are the same. Each joined path leads into the directory it
was listed in, on any disk, so a link to a directory is never entered and a loop of
links never followed. One exception remains: a directory is still asked for when its
path has become too long to be inspected. It cannot be listed then, and nothing in it
is found or read.

For a start that is not settled they differ, since the joined paths go on from the
normal form of the start, which may be another place.

## Main results

* `Survey.listed_iff_offered`, `Survey.reached_iff_entered` — listings and paths agree.
* `Workspace.takes_absorb` — what taking a survey over does to the store.
* `Workspace.load_takes_visible_sources` — loading as a whole.
-/

namespace DottedNames

/-- A tree whose names fit into the directories of a disk. -/
structure Disk.IsFitted (disk : Disk) : Prop extends IsTree disk where
  fits : ∀ e ∈ disk.entries, ∀ name ∈ e.1, name.length ≤ maxName ∧ (0 : UInt8) ∉ name

instance (disk : Disk) : Decidable disk.IsFitted :=
  decidable_of_iff (disk.IsTree ∧
      ∀ e ∈ disk.entries, ∀ name ∈ e.1, name.length ≤ Disk.maxName ∧ (0 : UInt8) ∉ name)
    ⟨fun ⟨hTree, hFits⟩ => ⟨hTree, hFits⟩, fun h => ⟨h.toIsTree, h.fits⟩⟩

theorem Disk.IsFitted.name_fits {disk : Disk} (h : disk.IsFitted) {dir : Location} {name : Text}
    {entry : Entry} (hEntry : disk.get? (dir ++ [name]) = some entry) :
    name.length ≤ maxName ∧ (0 : UInt8) ∉ name :=
  h.fits _ (mem_of_get? (by simp) hEntry) name (by simp)

namespace View

variable {view : View} {path content : Text}

/-- Only paths that are not too long are read. -/
theorem length_of_read (h : view.read path = .ok content) : path.length < Disk.maxPath := by
  unfold read at h
  split at h
  · next hFollow =>
      obtain ⟨loc, hLoc, -⟩ := entry_eq_ok_iff.1 hFollow
      exact (locate_eq_ok_iff.1 hLoc).2.2.1
  · exact absurd h (by simp)
  · exact absurd h (by simp)

/-- A regular file is read. -/
theorem read_of_inspect (h : view.inspect path = .ok (.file content)) :
    view.read path = .ok content := by
  have hFollow : view.follow path = .ok (.file content) :=
    entry_eq_ok_iff.2 (locate_of_inspect h (by simp))
  rw [read, hFollow]

/-- A directory is not read. -/
theorem not_read_of_directory (h : view.follow path = .ok .directory) :
    view.read path ≠ .ok content := by
  rw [read, h]
  simp

end View

/-! ## Listings and paths -/

namespace Survey

variable {view : View} {root start path found : Text}

/-- A directory that is entered from a start, by what the paths on the way show. -/
inductive Entered (view : View) (root start : Text) : Text → Prop
  | top (hDir : view.inspect start = .ok .directory)
      (hEnters : enters root start (Path.base start) = true) : Entered view root start start
  | inside {dir name : Text} (hAbove : Entered view root start dir) (hName : IsName name)
      (hDir : view.inspect (Path.join dir name) = .ok .directory)
      (hEnters : enters root (Path.join dir name) name = true) :
      Entered view root start (Path.join dir name)

/-- A Python file that is offered from a start: it stands in an entered directory, or it
is the start. -/
inductive Offered (view : View) (root start : Text) : Text → Prop
  | top {entry : Entry} (hEntry : view.inspect start = .ok entry) (hFile : entry ≠ .directory)
      (hPython : Path.isPython start = true) : Offered view root start start
  | inside {dir name : Text} {entry : Entry} (hDir : Entered view root start dir)
      (hName : IsName name) (hEntry : view.inspect (Path.join dir name) = .ok entry)
      (hFile : entry ≠ .directory) (hPython : Path.isPython (Path.join dir name) = true) :
      Offered view root start (Path.join dir name)

/-- An entered directory can be inspected. -/
theorem Entered.inspect (h : Entered view root start path) :
    view.inspect path = .ok .directory := by
  cases h with
  | top hDir hEnters => exact hDir
  | inside hAbove hName hDir hEnters => exact hDir

/-- After the start every path is in normal form. -/
theorem Entered.settled (h : Entered view root start path) (hSettled : view.Settled start) :
    view.Settled path := by
  cases h with
  | top hDir hEnters => exact hSettled
  | inside hAbove hName hDir hEnters => exact View.settled_of_clean (Path.clean_clean _)

section Paths

variable (hTree : view.disk.IsTree) (hSettled : view.Settled start)
include hTree hSettled

/-- What a path shows in an entered directory is listed there. -/
theorem Entered.mem_listing (h : Entered view root start path) {name : Text} (hName : IsName name)
    {entry : Entry} (hEntry : view.inspect (Path.join path name) = .ok entry) :
    (name, entry) ∈ listing view path := by
  obtain ⟨loc, hLoc, -⟩ := View.locate_of_inspect h.inspect (by simp)
  obtain ⟨-, -, -, hThere⟩ :=
    ((h.settled hSettled).inspect_join_iff hTree hLoc hName).1 hEntry
  exact (mem_listing_iff hTree).2 ⟨loc, hLoc, hThere⟩

/-- A directory that is entered is reached. -/
theorem Entered.reached (h : Entered view root start path) : Reached view root start path := by
  induction h with
  | top hDir hEnters => exact ⟨hDir, hEnters, .refl⟩
  | @inside dir name hAbove hName hDir hEnters ih =>
      have hStep : GoesOn view root dir (Path.join dir name) :=
        ⟨name, hAbove.mem_listing hTree hSettled hName hDir, rfl, hEnters⟩
      exact ⟨ih.1, ih.2.1, ih.2.2.tail hStep⟩

/-- A file that is offered is listed. -/
theorem Offered.listed (h : Offered view root start path) : Listed view root start path := by
  cases h with
  | top hEntry hFile hPython => exact Or.inr ⟨⟨_, hEntry, hFile⟩, hPython, rfl⟩
  | inside hDir hName hEntry hFile hPython =>
      exact Or.inl ⟨_, hDir.reached hTree hSettled, _, _,
        hDir.mem_listing hTree hSettled hName hEntry, hFile, hPython, rfl⟩

end Paths

section Fitted

variable (hDisk : view.disk.IsFitted) (hSettled : view.Settled start)
include hDisk hSettled

/-- What is listed in an entered directory its path shows, unless it is too long. -/
theorem Entered.inspect_of_listed (h : Entered view root start path) {name : Text} {entry : Entry}
    (hListed : (name, entry) ∈ listing view path)
    (hLength : (Path.join path name).length < Disk.maxPath) :
    view.inspect (Path.join path name) = .ok entry := by
  have hName := isName_of_mem_listing hDisk.toIsTree hListed
  obtain ⟨loc, hLoc, hEntry⟩ := (mem_listing_iff hDisk.toIsTree).1 hListed
  obtain ⟨hFits, hZero⟩ := hDisk.name_fits hEntry
  exact ((h.settled hSettled).inspect_join_iff hDisk.toIsTree hLoc hName).2
    ⟨hZero, hLength, hFits, hEntry⟩

/-- A directory that is reached is entered, or its path is too long to be used. -/
theorem Reached.entered_or_long (h : Reached view root start path) :
    Entered view root start path ∨ Disk.maxPath ≤ path.length := by
  obtain ⟨hDir, hEnters, hReaches⟩ := h
  induction hReaches with
  | refl => exact Or.inl (.top hDir hEnters)
  | @tail dir next hBefore hStep ih =>
      obtain ⟨name, hListed, rfl, hNext⟩ := hStep
      rcases ih with hEntered | hLong
      · by_cases hLength : (Path.join dir name).length < Disk.maxPath
        · refine Or.inl (.inside hEntered (isName_of_mem_listing hDisk.toIsTree hListed) ?_ hNext)
          exact hEntered.inspect_of_listed hDisk hSettled hListed hLength
        · exact Or.inr (Nat.le_of_not_lt hLength)
      · -- what is too long is not listed, so there is no step from it
        exact absurd (length_of_mem_listing hDisk.toIsTree hListed) (Nat.not_lt.2 hLong)

/-- The directories that are reached are those that are entered. -/
theorem reached_iff_entered (hLength : path.length < Disk.maxPath) :
    Reached view root start path ↔ Entered view root start path := by
  constructor
  · intro h
    exact (h.entered_or_long hDisk hSettled).resolve_right (Nat.not_le.2 hLength)
  · intro h
    exact h.reached hDisk.toIsTree hSettled

/-- The files that are listed are those that are offered. -/
theorem listed_iff_offered (hLength : path.length < Disk.maxPath) :
    Listed view root start path ↔ Offered view root start path := by
  constructor
  · rintro (⟨dir, hReached, name, entry, hListed, hFile, hPython, rfl⟩ |
      ⟨⟨entry, hEntry, hFile⟩, hPython, rfl⟩)
    · have hUsable := length_of_mem_listing hDisk.toIsTree hListed
      have hEntered := (reached_iff_entered hDisk hSettled hUsable).1 hReached
      exact .inside hEntered (isName_of_mem_listing hDisk.toIsTree hListed)
        (hEntered.inspect_of_listed hDisk hSettled hListed hLength) hFile hPython
    · exact .top hEntry hFile hPython
  · intro h
    exact h.listed hDisk.toIsTree hSettled

end Fitted

end Survey

/-! ## The store -/

namespace Store

variable {before after again : Store} {view : View} {offered : Text → Prop}

/-- A store takes over the offered files that can be read and that the editor does not
have open, and nothing else in it changes. -/
structure Takes (before : Store) (view : View) (offered : Text → Prop) (after : Store) : Prop where
  taken : ∀ path content, offered path → view.read path = .ok content →
    before.isOpen path = false → after.get? path = some (Held.ofFile path content)
  kept : ∀ path, ¬ (offered path ∧ (∃ content, view.read path = .ok content) ∧
    before.isOpen path = false) → after.get? path = before.get? path

/-- Only what is offered and can be read matters. -/
theorem Takes.congr {others : Text → Prop} (h : before.Takes view offered after)
    (hSame : ∀ path content, view.read path = .ok content → (offered path ↔ others path)) :
    before.Takes view others after := by
  constructor
  · intro path content hOther hRead hClosed
    exact h.taken path content ((hSame path content hRead).2 hOther) hRead hClosed
  · intro path hNot
    refine h.kept path fun ⟨hOffered, ⟨content, hRead⟩, hClosed⟩ => hNot ⟨?_, ⟨content, hRead⟩, hClosed⟩
    exact (hSame path content hRead).1 hOffered

theorem Takes.isOpen (h : before.Takes view offered after) (path : Text) :
    after.isOpen path = before.isOpen path := by
  by_cases hTaken : offered path ∧ (∃ content, view.read path = .ok content) ∧
      before.isOpen path = false
  · obtain ⟨hOffered, ⟨content, hRead⟩, hClosed⟩ := hTaken
    rw [isOpen_eq_any, h.taken path content hOffered hRead hClosed, hClosed]
    rfl
  · rw [isOpen_eq_any, isOpen_eq_any, h.kept path hTaken]

/-- Taking the same over once more changes nothing. -/
theorem Takes.get?_again (h : before.Takes view offered after)
    (hAgain : after.Takes view offered again) (path : Text) : again.get? path = after.get? path := by
  by_cases hTaken : offered path ∧ (∃ content, view.read path = .ok content) ∧
      after.isOpen path = false
  · obtain ⟨hOffered, ⟨content, hRead⟩, hClosed⟩ := hTaken
    rw [hAgain.taken path content hOffered hRead hClosed,
      h.taken path content hOffered hRead (h.isOpen path ▸ hClosed)]
  · exact hAgain.kept path hTaken

end Store

namespace Workspace

variable {ws : Workspace} {watches : Watches} {view : View} {start : Text} {survey : Survey}

/-- Taking a survey over takes its files over. -/
theorem takes_absorb (hSound : ws.store.Sound) (watches : Watches) (view : View)
    (survey : Survey) :
    ws.store.Takes view (· ∈ survey.files) (ws.absorb watches view survey).1.store := by
  have hFolds : ∀ path, ws.store.isOpen path = false →
      (ws.absorb watches view survey).1.store.get? path =
        if path ∈ survey.files then (view.copy path).or (ws.store.get? path)
        else ws.store.get? path :=
    fun path hClosed => Store.get?_foldl_scanned hSound hClosed survey.files
  constructor
  · intro path content hMem hRead hClosed
    rw [hFolds path hClosed, if_pos hMem, View.copy, hRead]
    rfl
  · intro path hNot
    cases hOpen : ws.store.isOpen path with
    | true => exact (spares_absorb ws watches view survey).get?_of_open hSound hOpen
    | false =>
        rw [hFolds path hOpen]
        split
        · next hMem =>
            cases hRead : view.read path with
            | ok content => exact absurd ⟨hMem, ⟨content, hRead⟩, hOpen⟩ hNot
            | error failure => simp [View.copy, hRead]
        · rfl

/-- Loading takes over what is listed. -/
theorem takes_of_start (hTree : view.disk.IsTree) (hSound : ws.store.Sound) (watches : Watches)
    (hStart : Survey.start view ws.root start = .ok survey) :
    ws.store.Takes view (Survey.Listed view ws.root start)
      (ws.absorb watches view survey).1.store :=
  (takes_absorb hSound watches view survey).congr fun _ _ _ => Survey.mem_start_files hTree hStart

theorem load_of_start (watches : Watches) (hStart : Survey.start view ws.root start = .ok survey) :
    ws.load watches view start = .ok (ws.absorb watches view survey) := by
  rw [load, hStart]
  rfl

/-- Loading a tree. If the start is not there, loading fails with that and nothing has
changed, also when it is done in place. Otherwise it does not fail. It asks for the
directories that are reached through listings and takes over the files that they list,
which for a settled start are the directories and files that the paths show; and loading
again takes nothing more over. -/
theorem load_takes_visible_sources (ws : Workspace) (watches : Watches) (view : View)
    (start : Text) (hDisk : view.disk.IsFitted) (hSound : ws.store.Sound) :
    (∀ fault, view.inspect start = .error fault →
      ws.load watches view start = .error ⟨.inspecting, start, fault⟩ ∧
        Deed.walk view ws.root start (ws, watches) =
          (some ⟨.inspecting, start, fault⟩, ws, watches)) ∧
    ∀ entry, view.inspect start = .ok entry →
      ∃ survey, Survey.start view ws.root start = .ok survey ∧
        ws.load watches view start = .ok (ws.absorb watches view survey) ∧
        Deed.walk view ws.root start (ws, watches) = (none, ws.absorb watches view survey) ∧
        (∀ path, path ∈ survey.directories ↔ Survey.Reached view ws.root start path) ∧
        ws.store.Takes view (Survey.Listed view ws.root start)
          (ws.absorb watches view survey).1.store ∧
        (view.Settled start →
          (∀ path, path.length < Disk.maxPath →
            (path ∈ survey.directories ↔ Survey.Entered view ws.root start path)) ∧
          ws.store.Takes view (Survey.Offered view ws.root start)
            (ws.absorb watches view survey).1.store) ∧
        ∀ watches', ∃ again,
          (ws.absorb watches view survey).1.load watches' view start = .ok again ∧
            ∀ path, again.1.store.get? path =
              (ws.absorb watches view survey).1.store.get? path := by
  refine ⟨fun fault hFault => ?_, fun entry hEntry => ?_⟩
  · have hLoad : ws.load watches view start = .error ⟨.inspecting, start, fault⟩ := by
      rw [load, Survey.start_of_error hFault]
      rfl
    exact ⟨hLoad, by rw [Deed.walk_eq_load, hLoad]⟩
  · obtain ⟨survey, hStart⟩ : ∃ survey, Survey.start view ws.root start = .ok survey :=
      Survey.exists_start hEntry
    have hLoad := load_of_start watches hStart
    have hTakes := takes_of_start hDisk.toIsTree hSound watches hStart
    have hDirectories : ∀ path,
        path ∈ survey.directories ↔ Survey.Reached view ws.root start path :=
      fun path => Survey.mem_start_directories hDisk.toIsTree hStart
    refine ⟨survey, hStart, hLoad, by rw [Deed.walk_eq_load, hLoad], hDirectories, hTakes,
      fun hSettled => ⟨fun path hLength => ?_, ?_⟩, fun watches' => ?_⟩
    · rw [hDirectories, Survey.reached_iff_entered hDisk hSettled hLength]
    · exact hTakes.congr fun path content hRead =>
        Survey.listed_iff_offered hDisk hSettled (View.length_of_read hRead)
    · have hNext : (ws.absorb watches view survey).1.store.Sound :=
        (spares_absorb ws watches view survey hSound).1
      refine ⟨_, load_of_start watches' hStart, fun path => ?_⟩
      exact hTakes.get?_again (takes_of_start hDisk.toIsTree hNext watches' hStart) path

/-- A link `/w/link` that stands beside one directory `b` and leads beside another. -/
def crossing : View :=
  { disk := (Disk.apply {} [.makeDirectory (text "/w/a/b/sub"), .makeDirectory (text "/w/a/x"),
      .makeDirectory (text "/w/b"), .write (text "/w/other/o.py") (text "o"),
      .makeLink (text "/w/link") (text "a/x"), .makeLink (text "/w/b/sub") (text "../other"),
      .makeLink (text "/w/other/loop") (text ".")]).disk }

theorem isFitted_crossing : crossing.disk.IsFitted := by
  decide +kernel

/-- From a start that is written with slashes to spare the file is taken over, and the loop
of links beside it is not entered. -/
theorem load_takes_file_beside_loop :
    crossing.disk.IsFitted ∧ Store.Sound {} ∧
      ∃ survey, Survey.start crossing (text "/w") (text "/w//other//") = .ok survey ∧
        survey.directories = [text "/w//other//"] ∧
        (absorb { root := text "/w" } [] crossing survey).1.store.get? (text "/w/other/o.py") =
          some (Held.ofFile (text "/w/other/o.py") (text "o")) := by
  refine ⟨isFitted_crossing, Store.sound_empty, ?_⟩
  have hDir : crossing.inspect (text "/w//other//") = .ok .directory := by decide +kernel
  have hFile : crossing.inspect (Path.join (text "/w//other//") (text "o.py")) =
      .ok (.file (text "o")) := by decide +kernel
  obtain ⟨survey, hStart, -, -, -, -, hSettled, -⟩ :=
    (load_takes_visible_sources { root := text "/w" } [] crossing (text "/w//other//")
      isFitted_crossing Store.sound_empty).2 .directory hDir
  obtain ⟨-, hTakes⟩ := hSettled (View.settled_of_no_above (by decide))
  have hOffered : Survey.Offered crossing (text "/w") (text "/w//other//") (text "/w/other/o.py") :=
    .inside (.top hDir (by decide)) (by decide) hFile (by simp) (by decide)
  have hRead : crossing.read (text "/w/other/o.py") = .ok (text "o") := View.read_of_inspect hFile
  refine ⟨survey, hStart, ?_, hTakes.taken _ _ hOffered hRead rfl⟩
  have hDirectories : (Survey.start crossing (text "/w") (text "/w//other//")).map
      Survey.directories = .ok [text "/w//other//"] := by decide +kernel
  rw [hStart] at hDirectories
  exact Except.ok.inj hDirectories

/-- The file beside the loop is not offered by way of `/w/b`, where `sub` is a link. -/
theorem not_offered_crossing :
    ¬ Survey.Offered crossing (text "/w") (text "/w/link/../b") (text "/w/b/sub/o.py") := by
  intro hOffered
  have hTrail : Trail.ofText (text "/w/b/sub/o.py") =
      { rooted := true, names := [text "w", text "b", text "sub", text "o.py"] } := by decide
  generalize hPath : text "/w/b/sub/o.py" = path at hOffered hTrail
  cases hOffered with
  | top hEntry hFile hPython => exact absurd hPath (by decide)
  | @inside dir name entry hDir hName hEntry hFile hPython =>
      obtain ⟨loc, hLoc, -⟩ := View.entry_eq_ok_iff.1 hDir.inspect
      have hParent := Path.ofText_join_parent (View.locate_eq_ok_iff.1 hLoc).2.1 hName
      rw [hTrail] at hParent
      cases hDir with
      | top hTop hEnters => exact absurd hParent (by decide)
      | inside hAbove hNext hShown hEnters =>
          -- its directory would have to be `/w/b/sub`, which is a link
          have hClean := congrArg Trail.toText hParent
          have hSub : Path.join _ _ = text "/w/b/sub" := (Path.clean_clean _).symm.trans hClean.symm
          rw [hSub] at hShown
          exact absurd hShown (by decide +kernel)

/-- Going by what the paths show does not describe every load. From `/w/link/../b` the
directory `/w/a/b` is listed, and the path of its `sub` leads through the link in `/w/b`. -/
theorem loading_leaves_the_paths :
    ¬ ∀ (ws : Workspace) (watches : Watches) (view : View) (start : Text) (entry : Entry),
        view.disk.IsFitted → ws.store.Sound → view.inspect start = .ok entry →
          ∃ survey, Survey.start view ws.root start = .ok survey ∧
            (∀ path, path.length < Disk.maxPath →
              (path ∈ survey.directories ↔ Survey.Entered view ws.root start path)) ∧
            ws.store.Takes view (Survey.Offered view ws.root start)
              (ws.absorb watches view survey).1.store := by
  intro hAlways
  obtain ⟨survey, hStart, -, hTakes⟩ :=
    hAlways { root := text "/w" } [] crossing (text "/w/link/../b") .directory isFitted_crossing
      Store.sound_empty (by decide +kernel)
  have hKept := hTakes.kept _ fun hTaken => not_offered_crossing hTaken.1
  have hAfter : (Survey.start crossing (text "/w") (text "/w/link/../b")).map
      (fun survey => (absorb { root := text "/w" } [] crossing survey).1.store.get?
        (text "/w/b/sub/o.py")) = .ok (some (Held.ofFile (text "/w/b/sub/o.py") (text "o"))) := by
    decide +kernel
  rw [hStart] at hAfter
  exact absurd (hKept.symm.trans (Except.ok.inj hAfter)) (by decide)

end Workspace

end DottedNames
