import DottedNames.Proofs.Notices

/-!
# What the notices tell about the disk

From a start at which a workspace is watched exactly, `Tracked` says what the
notices heard so far, together with the watches left, still tell about the disk
while edits go on: a directory without a watch has been announced by the
creation of a directory at or above it, a file that is new or has new content
has been announced, and a file that is gone has been reported gone.

Edits are brought down to two: a tree departs, or one arrives.

## Main results

* `Tracked.depart`, `Tracked.arrive` — a departure and an arrival are tracked.
* `Tracked.step`, `Tracked.of_edits` — so is one edit, and any number of them.
-/

namespace DottedNames

/-- A location that a survey from the root looks at: its directory is entered
and its path can be followed. -/
def Visible (root loc : Location) : Prop :=
  ∃ dir name, loc = dir ++ [name] ∧ InWorkspace root dir ∧ Disk.Addressable loc

/-- What the notices heard since a start, and the watches left, tell about the
disk now. -/
structure Tracked (root : Location) (start : Disk) (watches : Watches) (c : Changed) : Prop where
  hosts : c.disk.Hosts root
  proper : ∀ n ∈ c.notices, n.IsProper
  kept : ∀ n ∈ c.notices, n.gone = true → ¬ n.loc <+: root
  /-- A watch that is left is on a directory. -/
  sound : ∀ dir, (watches.left c.notices).On dir → c.disk.get? dir = some .directory
  /-- A directory without a watch has been announced. -/
  directories : ∀ dir, InWorkspace root dir → Disk.Addressable dir →
    c.disk.get? dir = some .directory →
      (watches.left c.notices).On dir ∨
        Standing (Creates dir) dir (watches.heard c.notices)
  /-- A file that is not as it was has been announced. -/
  files : ∀ loc content, Visible root loc → c.disk.get? loc = some (.file content) →
    Standing (Renews loc) loc (watches.heard c.notices) ∨
      start.get? loc = some (.file content) ∧ ¬ ReportedGone loc (watches.heard c.notices)
  /-- A file that is gone has been reported gone. -/
  lost : ∀ loc old, Visible root loc → start.get? loc = some (.file old) →
    (∀ content, c.disk.get? loc ≠ some (.file content)) →
      ReportedGone loc (watches.heard c.notices)

namespace Tracked

variable {root : Location} {start : Disk} {watches : Watches} {c : Changed}

/-- Before any notice the watches themselves tell all. -/
theorem init (hHosts : start.Hosts root) (hExact : watches.Exact root start) :
    Tracked root start watches { disk := start } where
  hosts := hHosts
  proper := by simp
  kept := by simp
  sound := fun dir hOn => ((hExact dir).1 hOn).1
  directories := fun dir hIn hAddress hDir => Or.inl ((hExact dir).2 ⟨hDir, hIn, hAddress⟩)
  files := by
    intro loc content _ hFile
    exact Or.inr ⟨hFile, by simp [ReportedGone, Watches.heard]⟩
  lost := by
    intro loc old _ hOld hNot
    exact absurd hOld (hNot old)

end Tracked

/-! ## Departures -/

/-- A tree departs, not with the root: every notice is about a part of it, one of
them about the whole. -/
structure Departs (root : Location) (disk : Disk) (loc : Location) (ns : List Notice) : Prop where
  ne_nil : loc ≠ []
  kept : ¬ loc <+: root
  notices : ∀ n ∈ ns, n.gone = true ∧ loc <+: n.loc ∧ ∃ entry, disk.get? n.loc = some entry
  top : ∃ n ∈ ns, n.loc = loc

/-- What is left is apart from the tree. -/
theorem Departs.apart {root loc other : Location} {disk : Disk} {ns : List Notice} {entry : Entry}
    (h : Departs root disk loc ns) (hOther : (disk.eraseTree loc).get? other = some entry) :
    ¬ loc <+: other ∧ disk.get? other = some entry := by
  rw [Disk.get?_eraseTree disk h.ne_nil] at hOther
  split at hOther
  · exact absurd hOther (by simp)
  · next hApart => exact ⟨hApart, hOther⟩

/-- No notice is about anything above what is apart from the tree. -/
theorem Departs.not_above {root loc other : Location} {disk : Disk} {ns : List Notice}
    (h : Departs root disk loc ns) (hApart : ¬ loc <+: other) : ∀ n ∈ ns, ¬ n.loc <+: other :=
  fun n hn hBad => hApart ((h.notices n hn).2.1.trans hBad)

namespace Tracked

section Depart

variable {root loc : Location} {start : Disk} {watches : Watches} {c : Changed} {ns : List Notice}
  (h : Tracked root start watches c) (hDeparts : Departs root c.disk loc ns)

include h hDeparts

theorem directories_depart (hUp : (watches.left c.notices).UpTo root) {dir : Location}
    (hIn : InWorkspace root dir) (hAddress : Disk.Addressable dir)
    (hDir : (c.disk.eraseTree loc).get? dir = some .directory) :
    (watches.left (c.notices ++ ns)).On dir ∨
      Standing (Creates dir) dir (watches.heard (c.notices ++ ns)) := by
  obtain ⟨hApart, hDir⟩ := hDeparts.apart hDir
  rw [Watches.left_append, Watches.heard_append]
  by_cases hOn : (watches.left c.notices).On dir
  · exact Or.inl (Watches.on_left_iff.2 ⟨hOn, fun n hn _ => hDeparts.not_above hApart n hn⟩)
  · have hSaid := (h.directories dir hIn hAddress hDir).resolve_left hOn
    refine Or.inr (hSaid.append fun m hm _ => ?_)
    have hMem := Watches.mem_of_mem_heard hm
    refine ⟨hDeparts.not_above hApart m hMem, fun hBelow => hOn ?_⟩
    refine hUp.on_of_heard hIn.isPrefix hm hBelow ?_
    rintro rfl
    exact hApart (hDeparts.notices m hMem).2.1

theorem files_depart {other : Location} {content : Text} (hVisible : Visible root other)
    (hFile : (c.disk.eraseTree loc).get? other = some (.file content)) :
    Standing (Renews other) other (watches.heard (c.notices ++ ns)) ∨
      start.get? other = some (.file content) ∧
        ¬ ReportedGone other (watches.heard (c.notices ++ ns)) := by
  obtain ⟨hApart, hFile⟩ := hDeparts.apart hFile
  rw [Watches.heard_append]
  rcases h.files other content hVisible hFile with hSaid | ⟨hSame, hNotGone⟩
  · refine Or.inl (hSaid.append fun m hm _ => ?_)
    have hMem := Watches.mem_of_mem_heard hm
    refine ⟨hDeparts.not_above hApart m hMem, fun hBelow => ?_⟩
    -- Something below a file would make a directory of it.
    obtain ⟨-, hLocAbove, entry, hEntry⟩ := hDeparts.notices m hMem
    have hNe : other ≠ m.loc := fun hSame => hApart (hSame ▸ hLocAbove)
    have hDir := h.hosts.directory_of_strict hBelow hNe hEntry
    exact absurd (hFile.symm.trans hDir) (by simp)
  · refine Or.inr ⟨hSame, fun hGone => ?_⟩
    rcases reportedGone_append.1 hGone with hOld | ⟨m, hm, -, hAbove⟩
    · exact hNotGone hOld
    · exact hDeparts.not_above hApart m (Watches.mem_of_mem_heard hm) hAbove

theorem lost_depart (hStart : start.IsTree) (hExact : watches.Exact root start) {other : Location}
    {old : Text} (hVisible : Visible root other) (hOld : start.get? other = some (.file old))
    (hNot : ∀ content, (c.disk.eraseTree loc).get? other ≠ some (.file content)) :
    ReportedGone other (watches.heard (c.notices ++ ns)) := by
  rw [Watches.heard_append, reportedGone_append]
  by_cases hFile : ∃ content, c.disk.get? other = some (.file content)
  · obtain ⟨content, hFile⟩ := hFile
    have hBelow : loc <+: other := by
      refine Classical.byContradiction fun hApart => hNot content ?_
      rw [Disk.get?_eraseTree c.disk hDeparts.ne_nil, if_neg hApart, hFile]
    obtain ⟨dir, name, rfl, hIn, hAddress⟩ := hVisible
    have hUp := hExact.upTo hStart
    have hWatched : watches.On dir :=
      (hExact dir).2 ⟨hStart.directory_of_concat hOld, hIn, hAddress.of_append⟩
    rcases hUp.on_left_or_reportedGone h.kept hWatched with hOn | hGone
    · exact Or.inr ((hUp.left c.notices).reportedGone_of_departure hDeparts.kept
        (fun n hn => ⟨(hDeparts.notices n hn).1, (hDeparts.notices n hn).2.1⟩) hDeparts.top hOn
        hBelow)
    · exact Or.inl (hGone.below (List.prefix_append dir [name]))
  · exact Or.inl (h.lost other old hVisible hOld fun content hBad => hFile ⟨content, hBad⟩)

/-- A tree departs. -/
theorem depart (hStart : start.IsTree) (hExact : watches.Exact root start) :
    Tracked root start watches
      { disk := c.disk.eraseTree loc, notices := c.notices ++ ns } := by
  have hGet := Disk.get?_eraseTree c.disk hDeparts.ne_nil
  constructor
  case hosts =>
    refine ⟨h.hosts.toIsPlain.eraseTree hDeparts.ne_nil, ?_⟩
    rw [hGet, if_neg hDeparts.kept]
    exact h.hosts.home
  case proper =>
    intro n hn
    rcases List.mem_append.1 hn with hOld | hNew
    · exact h.proper n hOld
    · obtain ⟨-, hBelow, entry, hEntry⟩ := hDeparts.notices n hNew
      refine ⟨fun hNil => hDeparts.ne_nil ?_, h.hosts.isName hEntry⟩
      exact List.prefix_nil.1 (hNil ▸ hBelow)
  case kept =>
    intro n hn hGone
    rcases List.mem_append.1 hn with hOld | hNew
    · exact h.kept n hOld hGone
    · exact hDeparts.not_above hDeparts.kept n hNew
  case sound =>
    intro dir hOn
    rw [Watches.left_append, Watches.on_left_iff] at hOn
    obtain ⟨n, hn, hTop⟩ := hDeparts.top
    have hApart : ¬ loc <+: dir := hTop ▸ hOn.2 n hn (hDeparts.notices n hn).1
    rw [hGet, if_neg hApart]
    exact h.sound dir hOn.1
  case directories =>
    have hUp := (hExact.upTo hStart).left c.notices
    exact fun dir hIn hAddress hDir => h.directories_depart hDeparts hUp hIn hAddress hDir
  case files => exact fun other content hVisible hFile => h.files_depart hDeparts hVisible hFile
  case lost =>
    intro other old hVisible hOld hNot
    exact h.lost_depart hDeparts hStart hExact hVisible hOld hNot

end Depart

end Tracked

/-! ## Arrivals -/

/-- A tree arrives in a directory: one notice is about it, nothing outside of it
changes, and it takes no directory's place. -/
structure Arrives (disk disk' : Disk) (dir : Location) (name : Text) (n : Notice) : Prop where
  directory : disk.get? dir = some .directory
  isName : IsName name
  loc : n.loc = dir ++ [name]
  signals : n.signals = { create := true } ∨
    n.signals = { write := true } ∧ ∃ content, disk'.get? (dir ++ [name]) = some (.file content)
  old : disk.get? (dir ++ [name]) ≠ some .directory
  replaced : ∀ old, disk.get? (dir ++ [name]) = some (.file old) →
    ∃ content, disk'.get? (dir ++ [name]) = some (.file content)
  elsewhere : ∀ other, ¬ dir ++ [name] <+: other → disk'.get? other = disk.get? other

namespace Arrives

variable {disk disk' : Disk} {root dir other : Location} {name : Text} {n : Notice}

theorem stays (h : Arrives disk disk' dir name n) : n.gone = false := by
  rcases h.signals with hSignals | ⟨hSignals, -⟩ <;> rw [Notice.gone, hSignals] <;> rfl

/-- A tree that arrives in a place below the root arrives in a directory below
the root. -/
theorem root_above (h : Arrives disk disk' dir name n) (hHosts : disk.Hosts root)
    (hRoot : root <+: other) (hBelow : dir ++ [name] <+: other) : root <+: dir := by
  rcases List.prefix_or_prefix_of_prefix hRoot hBelow with hAbove | hUnder
  · rcases List.prefix_concat_iff.1 hAbove with rfl | hDir
    · exact absurd hHosts.home h.old
    · exact hDir
  · exact absurd (hHosts.directory_of_prefix hUnder hHosts.home) h.old

/-- The notice announces the directories that have arrived. -/
theorem creates (h : Arrives disk disk' dir name n) (hTree : disk'.IsTree)
    (hBelow : dir ++ [name] <+: other) (hDir : disk'.get? other = some .directory) :
    Creates other n := by
  rcases h.signals with hCreate | ⟨-, content, hFile⟩
  · exact ⟨hCreate, h.loc ▸ hBelow⟩
  · have hBad := hTree.directory_of_prefix hBelow hDir
    exact absurd (hFile.symm.trans hBad) (by simp)

/-- And the files. -/
theorem renews (h : Arrives disk disk' dir name n) (hTree : disk'.IsTree)
    (hBelow : dir ++ [name] <+: other) {content : Text}
    (hFile : disk'.get? other = some (.file content)) : Renews other n := by
  rcases h.signals with hCreate | ⟨hWrite, written, hWritten⟩
  · exact Or.inl ⟨hCreate, h.loc ▸ hBelow⟩
  · refine Or.inr ⟨hWrite, h.loc.trans (Classical.byContradiction fun hNe => ?_)⟩
    have hUnder := hTree.directory_of_strict hBelow hNe hFile
    exact absurd (hWritten.symm.trans hUnder) (by simp)

end Arrives

/-- Notices that nothing has gone leave every announcement standing. -/
theorem Standing.append_stays {is : Notice → Prop} {loc : Location} {ns more : List Notice}
    (h : Standing is loc ns) (hMore : ∀ m ∈ more, m.gone = false) :
    Standing is loc (ns ++ more) :=
  h.append fun m hm hGone => absurd hGone (by simp [hMore m hm])

namespace Tracked

section Arrive

variable {root dir : Location} {start disk : Disk} {watches : Watches} {c : Changed} {name : Text}
  {n : Notice} (h : Tracked root start watches c) (hArrives : Arrives c.disk disk dir name n)

include hArrives

theorem left_arrive : watches.left (c.notices ++ [n]) = watches.left c.notices := by
  rw [Watches.left_append]
  simp [Watches.left, Watches.after, hArrives.stays]

theorem heard_stays : ∀ m ∈ (watches.left c.notices).heard [n], m.gone = false := by
  intro m hm
  obtain rfl : m = n := by simpa using Watches.mem_of_mem_heard hm
  exact hArrives.stays

theorem reportedGone_arrive (loc : Location) :
    ReportedGone loc (watches.heard (c.notices ++ [n])) ↔
      ReportedGone loc (watches.heard c.notices) := by
  rw [Watches.heard_append, reportedGone_append]
  refine ⟨fun hEither => hEither.resolve_right ?_, Or.inl⟩
  rintro ⟨m, hm, hBad, -⟩
  exact absurd hBad (by simp [heard_stays hArrives m hm])

include h

/-- Either the directory has a watch, which hears of the arrival, or its own
announcement stands for everything in it. -/
theorem standing_arrive {is : Notice → Prop} {loc : Location} (hIn : InWorkspace root dir)
    (hAddress : Disk.Addressable dir) (hBelow : dir <+: loc) (hIs : is n)
    (hKind : ∀ m, Creates loc m → is m) : Standing is loc (watches.heard (c.notices ++ [n])) := by
  rw [Watches.heard_append]
  rcases h.directories dir hIn hAddress hArrives.directory with hOn | hSaid
  · have hHears : (watches.left c.notices).hears n = true :=
      Watches.hears_iff.2 (Or.inl (by simpa [hArrives.loc] using hOn))
    have hHeard : (watches.left c.notices).heard [n] = [n] := by simp [Watches.heard, hHears]
    rw [hHeard]
    exact standing_concat hIs
  · exact ((hSaid.below hBelow).mono hKind).append_stays (heard_stays hArrives)

theorem directories_arrive (hTree : disk.IsTree) {other : Location} (hIn : InWorkspace root other)
    (hAddress : Disk.Addressable other) (hThere : disk.get? other = some .directory) :
    (watches.left (c.notices ++ [n])).On other ∨
      Standing (Creates other) other (watches.heard (c.notices ++ [n])) := by
  rw [left_arrive hArrives]
  by_cases hBelow : dir ++ [name] <+: other
  · have hDirBelow : dir <+: other := (List.prefix_append dir [name]).trans hBelow
    have hRootDir := hArrives.root_above h.hosts hIn.isPrefix hBelow
    exact Or.inr (h.standing_arrive hArrives (hIn.of_isPrefix hRootDir hDirBelow)
      (hAddress.of_isPrefix hDirBelow) hDirBelow (hArrives.creates hTree hBelow hThere)
      fun _ hm => hm)
  · rw [hArrives.elsewhere other hBelow] at hThere
    refine (h.directories other hIn hAddress hThere).imp_right fun hSaid => ?_
    rw [Watches.heard_append]
    exact hSaid.append_stays (heard_stays hArrives)

theorem files_arrive (hTree : disk.IsTree) {other : Location} {content : Text}
    (hVisible : Visible root other) (hFile : disk.get? other = some (.file content)) :
    Standing (Renews other) other (watches.heard (c.notices ++ [n])) ∨
      start.get? other = some (.file content) ∧
        ¬ ReportedGone other (watches.heard (c.notices ++ [n])) := by
  rw [reportedGone_arrive hArrives]
  by_cases hBelow : dir ++ [name] <+: other
  · have hRenews := hArrives.renews hTree hBelow hFile
    obtain ⟨above, last, rfl, hIn, hAddress⟩ := hVisible
    have hAbove : above <+: above ++ [last] := List.prefix_append above [last]
    have hDirAbove : dir <+: above := by
      rcases List.prefix_concat_iff.1 hBelow with hSame | hUnder
      · simp [(List.append_inj' hSame rfl).1]
      · exact (List.prefix_append dir [name]).trans hUnder
    have hRootDir := hArrives.root_above h.hosts (hIn.isPrefix.trans hAbove) hBelow
    exact Or.inl (h.standing_arrive hArrives (hIn.of_isPrefix hRootDir hDirAbove)
      (hAddress.of_isPrefix (hDirAbove.trans hAbove)) (hDirAbove.trans hAbove) hRenews
      fun _ hm => Or.inl hm)
  · rw [hArrives.elsewhere other hBelow] at hFile
    refine (h.files other content hVisible hFile).imp_left fun hSaid => ?_
    rw [Watches.heard_append]
    exact hSaid.append_stays (heard_stays hArrives)

theorem lost_arrive {other : Location} {old : Text} (hVisible : Visible root other)
    (hStart : start.get? other = some (.file old))
    (hNot : ∀ content, disk.get? other ≠ some (.file content)) :
    ReportedGone other (watches.heard (c.notices ++ [n])) := by
  rw [reportedGone_arrive hArrives]
  refine h.lost other old hVisible hStart fun content hFile => ?_
  by_cases hBelow : dir ++ [name] <+: other
  · by_cases hSame : dir ++ [name] = other
    · subst hSame
      obtain ⟨new, hNew⟩ := hArrives.replaced content hFile
      exact hNot new hNew
    · exact hArrives.old (h.hosts.directory_of_strict hBelow hSame hFile)
  · exact hNot content ((hArrives.elsewhere other hBelow).trans hFile)

/-- A tree arrives. -/
theorem arrive (hHosts : disk.Hosts root) :
    Tracked root start watches { disk, notices := c.notices ++ [n] } := by
  have hTree : disk.IsTree := hHosts.toIsTree
  constructor
  case hosts => exact hHosts
  case proper =>
    intro m hm
    rcases List.mem_append.1 hm with hOldNotice | hNew
    · exact h.proper m hOldNotice
    · obtain rfl := List.mem_singleton.1 hNew
      refine ⟨by simp [hArrives.loc], ?_⟩
      rw [hArrives.loc]
      intro part hPart
      rcases List.mem_append.1 hPart with hAbove | hLast
      · exact h.hosts.isName hArrives.directory part hAbove
      · exact List.mem_singleton.1 hLast ▸ hArrives.isName
  case kept =>
    intro m hm hBad
    rcases List.mem_append.1 hm with hOldNotice | hNew
    · exact h.kept m hOldNotice hBad
    · rw [List.mem_singleton.1 hNew, hArrives.stays] at hBad
      exact absurd hBad (by simp)
  case sound =>
    intro other hOn
    rw [left_arrive hArrives] at hOn
    have hThere := h.sound other hOn
    have hApart : ¬ dir ++ [name] <+: other := fun hBelow =>
      hArrives.old (h.hosts.directory_of_prefix hBelow hThere)
    rw [hArrives.elsewhere other hApart]
    exact hThere
  case directories =>
    exact fun other hIn hAddress hDir => h.directories_arrive hArrives hTree hIn hAddress hDir
  case files =>
    exact fun other content hVisible hFile => h.files_arrive hArrives hTree hVisible hFile
  case lost =>
    exact fun other old hVisible hStart hNot => h.lost_arrive hArrives hVisible hStart hNot

end Arrive

/-! ## Edits -/

variable {root : Location} {start : Disk} {watches : Watches} {c : Changed}

/-- One edit. A move is a departure and an arrival. -/
theorem step (hStart : start.IsTree) (hExact : watches.Exact root start)
    (h : Tracked root start watches c) {c' : Changed} (hEdit : Edit root c c') :
    Tracked root start watches c' := by
  have hHosts := hEdit.hosts h.hosts
  cases hEdit with
  | create hDir hName hFree hEntry =>
      refine h.arrive ⟨hDir, hName, rfl, Or.inl rfl, by simp [hFree], by simp [hFree], ?_⟩ hHosts
      intro other hApart
      have hNe : other ≠ _ := fun hSame => hApart (hSame ▸ List.prefix_refl _)
      exact (Disk.get?_insert c.disk (by simp) _ other).trans (if_neg hNe)
  | @rewrite loc old content hFile =>
      have hNe := Edit.ne_nil_of_file hFile
      obtain ⟨dir, name, rfl⟩ : ∃ dir name, loc = dir ++ [name] :=
        ⟨_, _, (List.dropLast_concat_getLast hNe).symm⟩
      have hGet := Disk.get?_insert c.disk hNe (.file content)
      have hNew : (c.disk.insert (dir ++ [name]) (.file content)).get? (dir ++ [name]) =
          some (.file content) := by rw [hGet, if_pos rfl]
      refine h.arrive ⟨h.hosts.directory_of_concat hFile, h.hosts.isName hFile name (by simp), rfl,
        Or.inr ⟨rfl, content, hNew⟩, by simp [hFile], fun _ _ => ⟨content, hNew⟩, ?_⟩ hHosts
      intro other hApart
      have hOther : other ≠ dir ++ [name] := fun hSame => hApart (hSame ▸ List.prefix_refl _)
      exact (hGet other).trans (if_neg hOther)
  | @erase loc entry hLoc hThere hRoot =>
      refine h.depart ⟨hLoc, hRoot, ?_, ?_⟩ hStart hExact
      · intro n hn
        obtain ⟨other, hOther, rfl⟩ := List.mem_map.1 hn
        obtain ⟨hBelow, e, he, rfl⟩ := Disk.mem_tree.1 hOther
        exact ⟨rfl, hBelow, e.2, h.hosts.get?_of_mem he⟩
      · refine ⟨_, List.mem_map.2 ⟨loc, Disk.mem_tree.2 ⟨List.prefix_refl loc, ?_⟩, rfl⟩, rfl⟩
        exact ⟨_, Disk.mem_of_get? hLoc hThere, rfl⟩
  | @move source dir name entry hSource hRoot hDir hName hApart hGoal =>
      have hNotDir := Edit.goal_not_directory hGoal
      have hApart' := Edit.not_prefix_of_goal h.hosts.toIsTree hSource hApart hNotDir
      have hLoc : source ≠ [] := fun hNil => hApart (hNil ▸ List.nil_prefix)
      have hErased := Disk.get?_eraseTree c.disk hLoc
      have hMoved := Disk.get?_moveTree h.hosts.toIsTree hApart hApart'
      have hDeparts : Departs root c.disk source
          [{ loc := source, signals := { rename := true } }] :=
        ⟨hLoc, hRoot, by simp [Notice.gone, hSource], by simp⟩
      have hDirStays : ¬ source <+: dir := fun hBad => hApart (hBad.trans (List.prefix_append _ _))
      have hArrives : Arrives (c.disk.eraseTree source) (c.disk.moveTree source (dir ++ [name])) dir
          name { loc := dir ++ [name], signals := { create := true } } := by
        refine ⟨(hErased dir).trans (if_neg hDirStays) ▸ hDir, hName, rfl, Or.inl rfl,
          (hErased _).trans (if_neg hApart) ▸ hNotDir, ?_, ?_⟩
        · intro old hOld
          rw [(hErased _).trans (if_neg hApart)] at hOld
          -- A file took the place of a file.
          obtain ⟨hEntry, -⟩ := hGoal.resolve_left (by simp [hOld])
          have hThere : (c.disk.moveTree source (dir ++ [name])).get? (dir ++ [name]) =
              some entry := by
            rw [hMoved, if_pos (List.prefix_refl _)]
            simpa using hSource
          cases entry with
          | directory => exact absurd rfl hEntry
          | link target => exact absurd hSource h.hosts.not_link
          | file content => exact ⟨content, hThere⟩
        · intro other hOther
          exact (hMoved other).trans ((if_neg hOther).trans (hErased other).symm)
      simpa using (h.depart hDeparts hStart hExact).arrive hArrives hHosts

/-- Any number of edits. -/
theorem of_edits (hStart : start.Hosts root) (hExact : watches.Exact root start) {c : Changed}
    (hEdits : Edits root { disk := start } c) : Tracked root start watches c := by
  induction hEdits with
  | refl => exact init hStart hExact
  | tail _ hEdit ih => exact ih.step hStart.toIsTree hExact hEdit

end Tracked

end DottedNames
