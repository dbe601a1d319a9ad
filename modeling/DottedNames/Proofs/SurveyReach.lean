import DottedNames.Proofs.LoadingInPlace
import Mathlib.Logic.Relation

/-!
# How far a survey goes

A survey goes on from a directory to those that are listed in it and entered. Which
directories it finds is therefore a question of reachability, on any disk and from any
start, with links wherever they may be. The depth that bounds the recursion takes
nothing away: after the first step every path is in normal form, so that each further
step leads one name deeper into the tree, and the tree is no deeper than that.

## Main results

* `mem_directories_iff`, `mem_files_iff` — a survey with depth to spare.
* `suffices_depth` — the depth that a survey starts with suffices.
* `mem_start_directories`, `mem_start_files` — what a survey finds from a start.
-/

namespace DottedNames

namespace Survey

variable {view : View} {root path found : Text}

/-- A survey goes on from a directory to one that is listed in it and entered. -/
def GoesOn (view : View) (root path next : Text) : Prop :=
  ∃ name, (name, Entry.directory) ∈ listing view path ∧ next = Path.join path name ∧
    enters root next name = true

/-- A survey comes from a directory to another in any number of steps. -/
def Reaches (view : View) (root : Text) : Text → Text → Prop :=
  Relation.ReflTransGen (GoesOn view root)

/-- A directory lists a Python file under a path. -/
def Lists (view : View) (path found : Text) : Prop :=
  ∃ name entry, (name, entry) ∈ listing view path ∧ entry ≠ Entry.directory ∧
    Path.isPython (Path.join path name) = true ∧ found = Path.join path name

/-- A survey from a start comes to a directory. -/
def Reached (view : View) (root start path : Text) : Prop :=
  view.inspect start = .ok .directory ∧ enters root start (Path.base start) = true ∧
    Reaches view root start path

/-- A Python file is listed in a directory that a survey from a start comes to, or is the
start itself. -/
def Listed (view : View) (root start path : Text) : Prop :=
  (∃ dir, Reached view root start dir ∧ Lists view dir path) ∨
    (∃ entry, view.inspect start = .ok entry ∧ entry ≠ .directory) ∧
      Path.isPython start = true ∧ path = start

theorem mem_listing_iff (hTree : view.disk.IsTree) {name : Text} {entry : Entry} :
    (name, entry) ∈ listing view path ↔
      ∃ loc, view.locate { follow := true, absent := false } path = .ok loc ∧
        view.disk.get? (loc ++ [name]) = some entry := by
  unfold listing
  cases view.locate { follow := true, absent := false } path with
  | error fault => simp
  | ok loc => simp [hTree.mem_children_iff]

/-- Only proper names are listed. -/
theorem isName_of_mem_listing (hTree : view.disk.IsTree) {name : Text} {entry : Entry}
    (h : (name, entry) ∈ listing view path) : IsName name := by
  obtain ⟨loc, -, hEntry⟩ := (mem_listing_iff hTree).1 h
  exact hTree.isName hEntry name (by simp)

/-- Only under a path that is not too long anything is listed. -/
theorem length_of_mem_listing (hTree : view.disk.IsTree) {name : Text} {entry : Entry}
    (h : (name, entry) ∈ listing view path) : path.length < Disk.maxPath := by
  obtain ⟨loc, hLoc, -⟩ := (mem_listing_iff hTree).1 h
  exact (View.locate_eq_ok_iff.1 hLoc).2.2.1

/-! ## Depth -/

/-- A depth that a survey does not use up: when it is gone, nothing is listed. -/
def Suffices (view : View) (root : Text) : Nat → Text → Prop
  | 0, path => listing view path = []
  | depth + 1, path => ∀ next, GoesOn view root path next → Suffices view root depth next

theorem not_goesOn_of_listing_eq_nil (h : listing view path = []) (next : Text) :
    ¬ GoesOn view root path next := by
  rintro ⟨name, hListed, -⟩
  simp [h] at hListed

/-- The directories of a survey are those it reaches. -/
theorem mem_directories_iff {depth : Nat} (h : Suffices view root depth path) :
    found ∈ (ofDirectory view root depth path).directories ↔ Reaches view root path found := by
  rw [Reaches, Relation.ReflTransGen.cases_head_iff]
  induction depth generalizing path with
  | zero =>
      simp [ofDirectory, not_goesOn_of_listing_eq_nil h, eq_comm]
  | succ depth ih =>
      rw [mem_directories_succ, eq_comm]
      refine or_congr_right ⟨?_, ?_⟩
      · rintro ⟨name, hListed, hEnters, hFound⟩
        have hStep : GoesOn view root path (Path.join path name) := ⟨name, hListed, rfl, hEnters⟩
        rw [ih (h _ hStep), ← Relation.ReflTransGen.cases_head_iff] at hFound
        exact ⟨_, hStep, hFound⟩
      · rintro ⟨next, ⟨name, hListed, rfl, hEnters⟩, hReaches⟩
        have hStep : GoesOn view root path (Path.join path name) := ⟨name, hListed, rfl, hEnters⟩
        refine ⟨name, hListed, hEnters, ?_⟩
        rw [ih (h _ hStep), ← Relation.ReflTransGen.cases_head_iff]
        exact hReaches

/-- The files of a survey are those that the directories it reaches list. -/
theorem mem_files_iff {depth : Nat} (h : Suffices view root depth path) :
    found ∈ (ofDirectory view root depth path).files ↔
      ∃ dir, Reaches view root path dir ∧ Lists view dir found := by
  induction depth generalizing path with
  | zero =>
      simp only [ofDirectory, List.not_mem_nil, false_iff, not_exists, not_and]
      rintro dir hReaches ⟨name, entry, hListed, -⟩
      rcases Relation.ReflTransGen.cases_head_iff.1 hReaches with rfl | ⟨next, hStep, -⟩
      · exact absurd hListed (by simp [show listing view path = [] from h])
      · exact not_goesOn_of_listing_eq_nil h next hStep
  | succ depth ih =>
      rw [mem_files_succ]
      constructor
      · rintro (hHere | ⟨name, hListed, hEnters, hFound⟩)
        · exact ⟨path, .refl, hHere⟩
        · have hStep : GoesOn view root path (Path.join path name) := ⟨name, hListed, rfl, hEnters⟩
          obtain ⟨dir, hReaches, hLists⟩ := (ih (h _ hStep)).1 hFound
          exact ⟨dir, .head hStep hReaches, hLists⟩
      · rintro ⟨dir, hReaches, hLists⟩
        rcases Relation.ReflTransGen.cases_head_iff.1 hReaches with rfl | ⟨next, hStep, hRest⟩
        · exact Or.inl hLists
        · have hFound := (ih (h _ hStep)).2 ⟨dir, hRest, hLists⟩
          obtain ⟨name, hListed, rfl, hEnters⟩ := hStep
          exact Or.inr ⟨name, hListed, hEnters, hFound⟩

/-- From a path in normal form each step leads one name deeper into the tree. -/
theorem suffices_of_clean (hTree : view.disk.IsTree) {depth : Nat} (hClean : Path.clean path = path)
    (hDepth : ∀ loc, view.locate { follow := true, absent := false } path = .ok loc →
      view.disk.depth ≤ loc.length + depth) : Suffices view root depth path := by
  induction depth generalizing path with
  | zero =>
      refine List.eq_nil_iff_forall_not_mem.2 fun listed hListed => ?_
      obtain ⟨loc, hLoc, hEntry⟩ := (mem_listing_iff hTree).1 hListed
      have hLength := Disk.length_le_depth hEntry
      have hBound := hDepth loc hLoc
      rw [List.length_append, List.length_singleton] at hLength
      omega
  | succ depth ih =>
      rintro next ⟨name, hListed, rfl, -⟩
      have hName := isName_of_mem_listing hTree hListed
      obtain ⟨loc, hLoc, hEntry⟩ := (mem_listing_iff hTree).1 hListed
      refine ih (Path.clean_clean _) fun below hBelow => ?_
      have hDeeper := (View.settled_of_clean hClean).eq_of_locate_join hLoc hName hEntry (by simp) hBelow
      have hBound := hDepth loc hLoc
      rw [hDeeper, List.length_append, List.length_singleton]
      omega

/-- The depth that a survey starts with suffices. The start itself need not be in normal
form, but every path after it is. -/
theorem suffices_depth (hTree : view.disk.IsTree) (root path : Text) :
    Suffices view root (view.disk.depth + 1) path := by
  rintro next ⟨name, -, rfl, -⟩
  refine suffices_of_clean hTree (Path.clean_clean _) fun loc _ => ?_
  omega

/-! ## From a start -/

theorem start_of_error {fault : Fault} (h : view.inspect path = .error fault) :
    start view root path = .error ⟨.inspecting, path, fault⟩ := by
  rw [start, h]

theorem exists_start {entry : Entry} (h : view.inspect path = .ok entry) :
    ∃ survey, start view root path = .ok survey := by
  unfold start
  rw [h]
  cases entry with
  | file content => exact ⟨_, rfl⟩
  | link target => exact ⟨_, rfl⟩
  | directory =>
      simp only
      split
      · exact ⟨_, rfl⟩
      · exact ⟨_, rfl⟩

/-- The directories of a survey from a start. -/
theorem mem_start_directories (hTree : view.disk.IsTree) {survey : Survey}
    (h : start view root path = .ok survey) :
    found ∈ survey.directories ↔ Reached view root path found := by
  unfold start at h
  unfold Reached
  cases hEntry : view.inspect path with
  | error fault => simp [hEntry] at h
  | ok entry =>
      rw [hEntry] at h
      cases entry with
      | file content =>
          obtain rfl := Except.ok.inj h
          simp [ofFile]
      | link target =>
          obtain rfl := Except.ok.inj h
          simp [ofFile]
      | directory =>
          by_cases hEnters : enters root path (Path.base path) = true
          · simp only [hEnters, if_true] at h
            obtain rfl := Except.ok.inj h
            simp [mem_directories_iff (suffices_depth hTree root path), hEnters]
          · simp only [hEnters] at h
            obtain rfl := Except.ok.inj h
            simp [hEnters]

/-- The files of a survey from a start. -/
theorem mem_start_files (hTree : view.disk.IsTree) {survey : Survey}
    (h : start view root path = .ok survey) :
    found ∈ survey.files ↔ Listed view root path found := by
  have hFile : ∀ p, found ∈ (ofFile p).files ↔ Path.isPython p = true ∧ found = p := by
    intro p
    by_cases hPython : Path.isPython p = true
    · simp [ofFile, hPython]
    · simp [ofFile, hPython]
  unfold start at h
  unfold Listed Reached
  cases hEntry : view.inspect path with
  | error fault => simp [hEntry] at h
  | ok entry =>
      rw [hEntry] at h
      cases entry with
      | file content =>
          obtain rfl := Except.ok.inj h
          simp [hFile]
      | link target =>
          obtain rfl := Except.ok.inj h
          simp [hFile]
      | directory =>
          by_cases hEnters : enters root path (Path.base path) = true
          · simp only [hEnters, if_true] at h
            obtain rfl := Except.ok.inj h
            simp [mem_files_iff (suffices_depth hTree root path), hEnters]
          · simp only [hEnters] at h
            obtain rfl := Except.ok.inj h
            simp [hEnters]

end Survey

end DottedNames
