import DottedNames.Proofs.DiskTree
import DottedNames.Workspace.Survey

/-!
# What a survey finds

A survey folds over what a directory lists and goes down into the directories it
enters. Here its result is described by membership: one equation for one level
of the descent, on any disk, and from it, for plain trees, what the whole
descent finds. Every directory found is one that is reached without passing
over any name (soundness), and every directory and Python file that is so
reached under an addressable path is found (coverage). The depth that a survey
starts with is never used up, since no location is longer than the disk is deep.

## Main results

* `mem_directories_succ`, `mem_files_succ` — one level of the descent.
* `directories_sound`, `directories_cover`, `files_cover` — the whole descent.
* `start_ofNames` — the survey that starts at a directory of the workspace.
-/

namespace DottedNames

/-- A directory location that is entered on the way down from the root: no name
on the way is passed over. -/
def InWorkspace (root loc : Location) : Prop :=
  ∃ below, loc = root ++ below ∧ ∀ name ∈ below, Survey.isSkipped name = false

namespace InWorkspace

variable {root loc : Location}

theorem self (root : Location) : InWorkspace root root := ⟨[], by simp, by simp⟩

theorem isPrefix (h : InWorkspace root loc) : root <+: loc := by
  obtain ⟨below, rfl, -⟩ := h
  exact List.prefix_append root below

theorem append (h : InWorkspace root loc) {below : Location}
    (hBelow : ∀ name ∈ below, Survey.isSkipped name = false) : InWorkspace root (loc ++ below) := by
  obtain ⟨above, rfl, hAbove⟩ := h
  refine ⟨above ++ below, by simp, fun name hName => ?_⟩
  exact (List.mem_append.1 hName).elim (hAbove name) (hBelow name)

/-- What lies between the root and a directory of the workspace is one. -/
theorem of_isPrefix (h : InWorkspace root loc) {dir : Location} (hRoot : root <+: dir)
    (hDir : dir <+: loc) : InWorkspace root dir := by
  obtain ⟨below, rfl, hBelow⟩ := h
  obtain ⟨above, rfl⟩ := hRoot
  obtain ⟨rest, hRest⟩ := (List.prefix_append_right_inj root).1 hDir
  exact ⟨above, rfl, fun name hName => hBelow name (hRest ▸ List.mem_append_left rest hName)⟩

/-- A directory that extends one of the workspace is reached from it without
passing over a name. -/
theorem below (h : InWorkspace root loc) {dir rest : Location} (hRoot : root <+: dir)
    (hLoc : loc = dir ++ rest) : ∀ name ∈ rest, Survey.isSkipped name = false := by
  obtain ⟨below, rfl, hBelow⟩ := h
  obtain ⟨above, rfl⟩ := hRoot
  rw [List.append_assoc, List.append_cancel_left_eq] at hLoc
  exact fun name hName => hBelow name (hLoc ▸ List.mem_append_right above hName)

end InWorkspace

namespace Survey

variable {view : View} {root : Text}

/-! ## One level of the descent -/

/-- What one entry of a directory adds to a survey. -/
def ofEntry (view : View) (root : Text) (depth : Nat) (path : Text) (listed : Text × Entry) :
    Survey :=
  match listed.2 with
  | .directory =>
    if enters root (Path.join path listed.1) listed.1 then
      ofDirectory view root depth (Path.join path listed.1)
    else {}
  | _ => ofFile (Path.join path listed.1)

theorem append_empty (survey : Survey) : survey.append {} = survey := by
  simp [append]

theorem ofDirectory_succ (view : View) (root : Text) (depth : Nat) (path : Text) :
    ofDirectory view root (depth + 1) path =
      (listing view path).foldl
        (fun survey listed => survey.append (ofEntry view root depth path listed))
        { directories := [path] } := by
  rw [ofDirectory]
  congr 1
  funext survey ⟨name, entry⟩
  cases entry with
  | directory =>
      simp only [ofEntry]
      split
      · rfl
      · exact (append_empty survey).symm
  | file content => rfl
  | link target => rfl

private theorem mem_foldl_append {α : Type} (part : α → Survey) (items : List α) (start : Survey)
    (path : Text) :
    (path ∈ (items.foldl (fun survey item => survey.append (part item)) start).directories ↔
        path ∈ start.directories ∨ ∃ item ∈ items, path ∈ (part item).directories) ∧
      (path ∈ (items.foldl (fun survey item => survey.append (part item)) start).files ↔
        path ∈ start.files ∨ ∃ item ∈ items, path ∈ (part item).files) := by
  induction items generalizing start with
  | nil => simp
  | cons item items ih =>
      obtain ⟨hDirectories, hFiles⟩ := ih (start.append (part item))
      rw [List.foldl_cons, hDirectories, hFiles]
      simp [append, or_assoc]

theorem mem_ofEntry_directories {depth : Nat} {path : Text} {listed : Text × Entry} {found : Text} :
    found ∈ (ofEntry view root depth path listed).directories ↔
      listed.2 = .directory ∧ enters root (Path.join path listed.1) listed.1 = true ∧
        found ∈ (ofDirectory view root depth (Path.join path listed.1)).directories := by
  unfold ofEntry
  split
  · next hDir => split <;> simp_all
  · next hOther => simp [ofFile, show listed.2 ≠ .directory from hOther]

theorem mem_ofEntry_files {depth : Nat} {path : Text} {listed : Text × Entry} {found : Text} :
    found ∈ (ofEntry view root depth path listed).files ↔
      listed.2 ≠ .directory ∧ Path.isPython (Path.join path listed.1) = true ∧
          found = Path.join path listed.1 ∨
        listed.2 = .directory ∧ enters root (Path.join path listed.1) listed.1 = true ∧
          found ∈ (ofDirectory view root depth (Path.join path listed.1)).files := by
  unfold ofEntry
  split
  · next hDir => split <;> simp_all
  · next hOther =>
      unfold ofFile
      split <;> simp_all

/-- The directories of one level: the start, and those found below each
directory that is listed and entered. -/
theorem mem_directories_succ {depth : Nat} {path found : Text} :
    found ∈ (ofDirectory view root (depth + 1) path).directories ↔
      found = path ∨
        ∃ name, (name, Entry.directory) ∈ listing view path ∧
          enters root (Path.join path name) name = true ∧
            found ∈ (ofDirectory view root depth (Path.join path name)).directories := by
  rw [ofDirectory_succ, (mem_foldl_append _ _ _ found).1]
  simp only [List.mem_singleton, mem_ofEntry_directories]
  constructor
  · rintro (hHere | ⟨⟨name, entry⟩, hListed, rfl, hEnters, hFound⟩)
    · exact Or.inl hHere
    · exact Or.inr ⟨name, hListed, hEnters, hFound⟩
  · rintro (hHere | ⟨name, hListed, hEnters, hFound⟩)
    · exact Or.inl hHere
    · exact Or.inr ⟨(name, .directory), hListed, rfl, hEnters, hFound⟩

/-- The files of one level: the Python files that are listed, and those found
below each directory that is listed and entered. -/
theorem mem_files_succ {depth : Nat} {path found : Text} :
    found ∈ (ofDirectory view root (depth + 1) path).files ↔
      (∃ name entry, (name, entry) ∈ listing view path ∧ entry ≠ Entry.directory ∧
          Path.isPython (Path.join path name) = true ∧ found = Path.join path name) ∨
        ∃ name, (name, Entry.directory) ∈ listing view path ∧
          enters root (Path.join path name) name = true ∧
            found ∈ (ofDirectory view root depth (Path.join path name)).files := by
  rw [ofDirectory_succ, (mem_foldl_append _ _ _ found).2]
  simp only [List.not_mem_nil, false_or, mem_ofEntry_files]
  constructor
  · rintro ⟨⟨name, entry⟩, hListed, ⟨hOther, hPython, hFound⟩ | ⟨rfl, hEnters, hFound⟩⟩
    · exact Or.inl ⟨name, entry, hListed, hOther, hPython, hFound⟩
    · exact Or.inr ⟨name, hListed, hEnters, hFound⟩
  · rintro (⟨name, entry, hListed, hOther, hPython, hFound⟩ | ⟨name, hListed, hEnters, hFound⟩)
    · exact ⟨(name, entry), hListed, Or.inl ⟨hOther, hPython, hFound⟩⟩
    · exact ⟨(name, .directory), hListed, Or.inr ⟨rfl, hEnters, hFound⟩⟩

/-! ## Plain trees -/

/-- What is listed under the path of a location stands in it. -/
theorem get?_of_mem_listing (hPlain : view.disk.IsPlain) {loc : Location}
    (hNames : ∀ n ∈ loc, IsName n) {name : Text} {entry : Entry}
    (h : (name, entry) ∈ listing view (Path.ofNames loc)) :
    view.disk.get? (loc ++ [name]) = some entry := by
  unfold listing at h
  cases hLocate : view.locate { follow := true, absent := false } (Path.ofNames loc) with
  | error fault => simp [hLocate] at h
  | ok found =>
      obtain ⟨rfl, -⟩ := View.addressable_of_locate (hPlain.direct _) hNames hLocate
      rw [hLocate] at h
      exact hPlain.mem_children_iff.1 h

/-- What stands in an addressable directory is listed under its path. -/
theorem mem_listing (hPlain : view.disk.IsPlain) {loc : Location} (hLoc : Disk.Addressable loc)
    {name : Text} {entry : Entry} (h : view.disk.get? (loc ++ [name]) = some entry) :
    (name, entry) ∈ listing view (Path.ofNames loc) := by
  have hDir := hPlain.directory_of_concat h
  rw [listing, View.locate_ofNames (hPlain.direct _) _ hDir hLoc]
  exact hPlain.mem_children_iff.2 h

/-- Strictly below the root a directory is entered unless its name is passed
over. -/
theorem enters_ofNames {rootLoc loc : Location} (hRoot : ∀ n ∈ rootLoc, IsName n)
    (hNames : ∀ n ∈ loc, IsName n) (hBelow : rootLoc <+: loc) {name : Text} (hName : IsName name) :
    enters (Path.ofNames rootLoc) (Path.join (Path.ofNames loc) name) name =
      !isSkipped name := by
  have hNe : Path.ofNames (loc ++ [name]) ≠ Path.ofNames rootLoc := by
    intro hEq
    have hSame := Path.ofNames_inj
      (fun n hn => (List.mem_append.1 hn).elim (hNames n) fun h => List.mem_singleton.1 h ▸ hName)
      hRoot hEq
    have hLen := hBelow.length_le
    rw [← hSame, List.length_append, List.length_singleton] at hLen
    omega
  rw [enters, Path.join_ofNames hNames hName, beq_eq_false_iff_ne.2 hNe, Bool.false_or]

section Descent

variable {rootLoc : Location} (hPlain : view.disk.IsPlain) (hRoot : ∀ n ∈ rootLoc, IsName n)
include hPlain hRoot

/-- Every directory found is reached without passing over a name. -/
theorem directories_sound {depth : Nat} {loc : Location} {found : Text}
    (hBelow : rootLoc <+: loc) (hDir : view.disk.get? loc = some .directory)
    (h : found ∈ (ofDirectory view (Path.ofNames rootLoc) depth (Path.ofNames loc)).directories) :
    ∃ below, (∀ n ∈ below, isSkipped n = false) ∧
      view.disk.get? (loc ++ below) = some .directory ∧ found = Path.ofNames (loc ++ below) := by
  induction depth generalizing loc with
  | zero =>
      have hFound : found = Path.ofNames loc := by simpa [ofDirectory] using h
      exact ⟨[], by simp, by simpa using hDir, by simpa using hFound⟩
  | succ depth ih =>
      have hNames := hPlain.isName hDir
      rcases mem_directories_succ.1 h with hHere | ⟨name, hListed, hEnters, hFound⟩
      · exact ⟨[], by simp, by simpa using hDir, by simpa using hHere⟩
      · have hChild := get?_of_mem_listing hPlain hNames hListed
        have hName : IsName name := hPlain.isName hChild name (by simp)
        rw [enters_ofNames hRoot hNames hBelow hName] at hEnters
        rw [Path.join_ofNames hNames hName] at hFound
        obtain ⟨below, hSkip, hGet, hPath⟩ :=
          ih (hBelow.trans (List.prefix_append loc [name])) hChild hFound
        refine ⟨name :: below, ?_, by simpa using hGet, by simpa using hPath⟩
        intro n hn
        rcases List.mem_cons.1 hn with rfl | hRest
        · simpa using hEnters
        · exact hSkip n hRest

/-- One step of a descent that a survey makes: into an entry of an addressable
directory. -/
private theorem descend {loc : Location} {name : Text} {rest : Location} {entry : Entry}
    (hBelow : rootLoc <+: loc) (hSkip : isSkipped name = false)
    (hGet : view.disk.get? (loc ++ name :: rest) = some entry) (hRest : rest ≠ [] ∨ entry = .directory)
    (hLoc : Disk.Addressable loc) :
    (name, Entry.directory) ∈ listing view (Path.ofNames loc) ∧
      enters (Path.ofNames rootLoc) (Path.join (Path.ofNames loc) name) name = true ∧
        Path.join (Path.ofNames loc) name = Path.ofNames (loc ++ [name]) := by
  have hChild : view.disk.get? (loc ++ [name]) = some .directory := by
    by_cases hNil : rest = []
    · obtain rfl := hRest.resolve_left fun hFull => hFull hNil
      simpa [hNil] using hGet
    · exact hPlain.directory_of_append hNil (by simpa using hGet)
  have hNames : ∀ n ∈ loc, IsName n := fun n hn => hPlain.isName hChild n (by simp [hn])
  have hName : IsName name := hPlain.isName hChild name (by simp)
  refine ⟨mem_listing hPlain hLoc hChild, ?_, Path.join_ofNames hNames hName⟩
  rw [enters_ofNames hRoot hNames hBelow hName, hSkip]
  rfl

/-- Every addressable directory that is reached without passing over a name is
found. -/
theorem directories_cover {depth : Nat} {loc below : Location} (hBelow : rootLoc <+: loc)
    (hDepth : view.disk.depth < loc.length + depth) (hSkip : ∀ n ∈ below, isSkipped n = false)
    (hGet : view.disk.get? (loc ++ below) = some .directory)
    (hLoc : Disk.Addressable (loc ++ below)) :
    Path.ofNames (loc ++ below) ∈
      (ofDirectory view (Path.ofNames rootLoc) depth (Path.ofNames loc)).directories := by
  induction depth generalizing loc below with
  | zero =>
      have hLen := Disk.length_le_depth hGet
      rw [List.length_append] at hLen
      omega
  | succ depth ih =>
      rw [mem_directories_succ]
      cases below with
      | nil => simp
      | cons name rest =>
          obtain ⟨hListed, hEnters, hJoin⟩ := descend hPlain hRoot hBelow (hSkip name (by simp)) hGet
            (Or.inr rfl) (Disk.Addressable.of_append hLoc)
          refine Or.inr ⟨name, hListed, hEnters, ?_⟩
          have hNext := @ih (loc ++ [name]) rest
            (hBelow.trans (List.prefix_append loc [name])) (by simp; omega)
            (fun n hn => hSkip n (by simp [hn])) (by simpa using hGet) (by simpa using hLoc)
          rw [hJoin]
          simpa using hNext

/-- Every addressable Python file in a directory that is reached without passing
over a name is found. -/
theorem files_cover {depth : Nat} {loc below : Location} {name content : Text}
    (hBelow : rootLoc <+: loc) (hDepth : view.disk.depth < loc.length + depth)
    (hSkip : ∀ n ∈ below, isSkipped n = false)
    (hGet : view.disk.get? (loc ++ below ++ [name]) = some (.file content))
    (hLoc : Disk.Addressable (loc ++ below ++ [name]))
    (hPython : Path.isPython (Path.ofNames (loc ++ below ++ [name])) = true) :
    Path.ofNames (loc ++ below ++ [name]) ∈
      (ofDirectory view (Path.ofNames rootLoc) depth (Path.ofNames loc)).files := by
  induction depth generalizing loc below with
  | zero =>
      have hLen := Disk.length_le_depth hGet
      simp only [List.length_append] at hLen
      omega
  | succ depth ih =>
      rw [mem_files_succ]
      cases below with
      | nil =>
          have hDir := hPlain.directory_of_concat hGet
          have hName : IsName name := hPlain.isName hGet name (by simp)
          have hJoin : Path.join (Path.ofNames loc) name = Path.ofNames (loc ++ [name]) :=
            Path.join_ofNames (fun n hn => hPlain.isName hGet n (by simp [hn])) hName
          refine Or.inl ⟨name, .file content, mem_listing hPlain ?_ (by simpa using hGet), ?_⟩
          · exact Disk.Addressable.of_append (by simpa using hLoc)
          · rw [hJoin]
            exact ⟨by simp, by simpa using hPython, by simp⟩
      | cons first rest =>
          have hDeeper : view.disk.get? (loc ++ first :: (rest ++ [name])) = some (.file content) := by
            simpa using hGet
          have hHere : Disk.Addressable loc :=
            hLoc.of_isPrefix ⟨first :: rest ++ [name], by simp⟩
          obtain ⟨hListed, hEnters, hJoin⟩ := descend hPlain hRoot hBelow
            (hSkip first (by simp)) hDeeper (Or.inl (by simp)) hHere
          refine Or.inr ⟨first, hListed, hEnters, ?_⟩
          have hNext := @ih (loc ++ [first]) rest
            (hBelow.trans (List.prefix_append loc [first])) (by simp; omega)
            (fun n hn => hSkip n (by simp [hn])) (by simpa using hGet) (by simpa using hLoc)
            (by simpa using hPython)
          rw [hJoin]
          simpa using hNext

omit hRoot in
/-- The survey that starts at a directory of the workspace. -/
theorem start_ofNames {loc : Location} (hLoc : InWorkspace rootLoc loc)
    (hDir : view.disk.get? loc = some .directory) (hAddress : Disk.Addressable loc) :
    start view (Path.ofNames rootLoc) (Path.ofNames loc) =
      .ok (ofDirectory view (Path.ofNames rootLoc) (view.disk.depth + 1) (Path.ofNames loc)) := by
  have hNames := hPlain.isName hDir
  have hInspect : view.inspect (Path.ofNames loc) = .ok .directory :=
    (View.entry_ofNames_iff (hPlain.direct _) _ hNames).2 ⟨hAddress, hDir⟩
  have hEnters : enters (Path.ofNames rootLoc) (Path.ofNames loc)
      (Path.base (Path.ofNames loc)) = true := by
    obtain ⟨below, rfl, hSkip⟩ := hLoc
    rcases List.eq_nil_or_concat below with rfl | ⟨front, last, rfl⟩
    · simp [enters]
    · have hLast : IsName last := hNames last (by simp)
      rw [List.concat_eq_append, ← List.append_assoc, enters, Path.base_ofNames _ hLast,
        hSkip last (by simp)]
      simp
  rw [start, hInspect]
  simp [hEnters]

end Descent

end Survey

end DottedNames
