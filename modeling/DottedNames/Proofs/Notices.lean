import DottedNames.Proofs.DiskEdit
import DottedNames.Proofs.SurveyTree
import DottedNames.Workspace.Watcher

/-!
# What watches hear

The watches on the directories of a workspace turn notices into events. As long
as every watch is named by the path of its location, and the notifier calls what
is in a watched directory by its path, the events are the notices that are heard,
each named by the path of its own location; and the watches that are left are
those on which no tree has gone. A notifier that puts a slash between the two
names keeps to that everywhere but at the top of the tree, whose path has its
slash already.

A workspace is watched exactly when its watches sit on the addressable
directories that a survey from its root enters. Such watches go all the way up
to the root, so nothing is heard from below a directory without a watch, and
whatever takes a watch away is heard.

An announcement is a notice that something was created or written. Events are
handled on the disk as it is in the end, so it counts when no later notice takes
its object away.

## Main results

* `givesPaths_bySlash_iff`, `givesPaths_join` — which names are paths.
* `eventsOf_eq` — the events of notices, by location.
* `UpTo.on_of_heard`, `UpTo.on_left_or_reportedGone` — what is not heard, and
  what must be.
* `UpTo.reportedGone_of_departure` — a tree that goes is reported.
-/

namespace DottedNames

/-- Whether a notice reports that something is gone from its location. -/
def Notice.gone (n : Notice) : Bool := n.signals.remove || n.signals.rename

/-- The event of a notice that is named by its location. -/
def Notice.toEvent (n : Notice) : Event := { path := Path.ofNames n.loc, signals := n.signals }

/-- A notice about a place below the top of the tree, where proper names lead. -/
structure Notice.IsProper (n : Notice) : Prop where
  ne_nil : n.loc ≠ []
  names : ∀ name ∈ n.loc, IsName name

/-- A location that is due a watch: an addressable directory that is entered
from the root. -/
def Due (root : Location) (disk : Disk) (dir : Location) : Prop :=
  disk.get? dir = some .directory ∧ InWorkspace root dir ∧ Disk.Addressable dir

/-- The watch is named by the path of its location, and the notifier calls what is in
that directory by its path. -/
structure Watch.IsNamedBy (w : Watch) (naming : Naming) : Prop where
  path : w.name = Path.ofNames w.loc
  entries : ∀ name, IsName name → naming w.name name = Path.ofNames (w.loc ++ [name])

/-- What a notifier calls the entries of the directories at and below a place is
their paths. -/
def Naming.GivesPaths (naming : Naming) (root : Location) : Prop :=
  ∀ dir name, root <+: dir → (∀ n ∈ dir ++ [name], IsName n) →
    naming (Path.ofNames dir) name = Path.ofNames (dir ++ [name])

/-- A slash in between makes a path of every name but those at the top of the tree. -/
theorem Naming.givesPaths_bySlash_iff {root : Location} :
    Naming.bySlash.GivesPaths root ↔ root ≠ [] := by
  constructor
  · rintro h rfl
    have hName : IsName (text "a") := ⟨by decide, by decide, by decide, by decide⟩
    exact absurd (h [] (text "a") List.nil_prefix (by simpa using hName)) (by decide)
  · intro hTop dir name hBelow _
    have hDir : dir ≠ [] := fun hNil => hTop (List.prefix_nil.1 (hNil ▸ hBelow))
    rw [Naming.bySlash, Path.ofNames_append_name hDir]

/-- Joining makes a path of every name. -/
theorem Naming.givesPaths_join (root : Location) : Naming.GivesPaths Path.join root := by
  intro dir name _ hNames
  exact Path.join_ofNames (fun n hn => hNames n (by simp [hn])) (hNames name (by simp))

namespace Watches

variable {watches : Watches} {naming : Naming} {loc : Location} {n : Notice}
  {ns more : List Notice}

/-- There is a watch on a location. -/
def On (watches : Watches) (loc : Location) : Prop := ∃ w ∈ watches, w.loc = loc

/-- Every watch is named by the path of its location, and none is on the top of
the tree. -/
structure Named (watches : Watches) : Prop where
  path : ∀ w ∈ watches, w.name = Path.ofNames w.loc
  below : ∀ w ∈ watches, w.loc ≠ []

/-- Every watch is named by the path of its location, and the notifier calls what is
in its directory by its path. -/
def NamedBy (watches : Watches) (naming : Naming) : Prop := ∀ w ∈ watches, w.IsNamedBy naming

/-- Below the top of the tree a slash in between makes a path. -/
theorem Named.bySlash (h : watches.Named) : watches.NamedBy .bySlash := by
  intro w hw
  refine ⟨h.path w hw, fun name _ => ?_⟩
  rw [Naming.bySlash, h.path w hw, Path.ofNames_append_name (h.below w hw)]

theorem isSome_on?_iff : (watches.on? loc).isSome = true ↔ watches.On loc := by
  simp [on?, On, List.find?_isSome]

theorem on?_eq_some (h : watches.NamedBy naming) {w : Watch} (hOn : watches.on? loc = some w) :
    w.loc = loc ∧ w.IsNamedBy naming :=
  ⟨by simpa using List.find?_some hOn, h w (List.mem_of_find?_eq_some hOn)⟩

/-- Whether a notice gives rise to an event. -/
def hears (watches : Watches) (n : Notice) : Bool :=
  (watches.on? n.loc.dropLast).isSome || (watches.on? n.loc).isSome && n.gone

/-- The watches that one notice leaves. -/
def after (watches : Watches) (n : Notice) : Watches :=
  if n.gone then watches.dropTree n.loc else watches

/-- The watches that notices in order leave. -/
def left (watches : Watches) (ns : List Notice) : Watches := ns.foldl after watches

/-- The notices that are heard, each by the watches that are left by then. -/
def heard (watches : Watches) : List Notice → List Notice
  | [] => []
  | n :: ns => (if watches.hears n then [n] else []) ++ heard (watches.after n) ns

theorem hears_iff :
    watches.hears n = true ↔ watches.On n.loc.dropLast ∨ watches.On n.loc ∧ n.gone = true := by
  rw [hears, Bool.or_eq_true, Bool.and_eq_true, isSome_on?_iff, isSome_on?_iff]

/-- A notice that is heard is an event under the path of its location. -/
theorem eventOf_eq (h : watches.NamedBy naming) (hProper : n.IsProper) :
    watches.eventOf n naming = if watches.hears n then some n.toEvent else none := by
  unfold eventOf hears Notice.gone Notice.toEvent
  cases hParent : watches.on? n.loc.dropLast with
  | some parent =>
      obtain ⟨hLoc, hNamed⟩ := on?_eq_some h hParent
      have hLast : n.loc.getLast? = some (n.loc.getLast hProper.ne_nil) :=
        List.getLast?_eq_some_getLast hProper.ne_nil
      have hPath := hNamed.entries _ (hProper.names _ (List.getLast_mem hProper.ne_nil))
      rw [hLoc, List.dropLast_concat_getLast hProper.ne_nil] at hPath
      simp [hLast, hPath]
  | none =>
      cases hSelf : watches.on? n.loc with
      | none => simp
      | some self =>
          obtain ⟨hLoc, hNamed⟩ := on?_eq_some h hSelf
          simp [hNamed.path, hLoc]

theorem on_dropTree_iff {dir : Location} :
    (watches.dropTree loc).On dir ↔ watches.On dir ∧ ¬ loc <+: dir := by
  unfold dropTree On
  constructor
  · rintro ⟨w, hw, rfl⟩
    obtain ⟨hMem, hKept⟩ := List.mem_filter.1 hw
    exact ⟨⟨w, hMem, rfl⟩, Disk.not_isPrefixOf_iff.1 hKept⟩
  · rintro ⟨⟨w, hMem, rfl⟩, hKept⟩
    exact ⟨w, List.mem_filter.2 ⟨hMem, Disk.not_isPrefixOf_iff.2 hKept⟩, rfl⟩

theorem on_after_iff {dir : Location} :
    (watches.after n).On dir ↔ watches.On dir ∧ ¬ (n.gone = true ∧ n.loc <+: dir) := by
  unfold after
  split
  · next hGone => simp [on_dropTree_iff, hGone]
  · next hStays => simp [hStays]

theorem NamedBy.after (h : watches.NamedBy naming) (n : Notice) :
    (watches.after n).NamedBy naming := by
  unfold Watches.after
  split
  · exact fun w hw => h w (List.mem_filter.1 hw).1
  · exact h

theorem left_cons (watches : Watches) (n : Notice) (ns : List Notice) :
    watches.left (n :: ns) = (watches.after n).left ns := rfl

theorem NamedBy.left (h : watches.NamedBy naming) (ns : List Notice) :
    (watches.left ns).NamedBy naming := by
  induction ns generalizing watches with
  | nil => exact h
  | cons n ns ih => exact ih (h.after n)

/-- The events of notices are the notices that are heard. -/
theorem eventsOf_eq (h : watches.NamedBy naming) (hProper : ∀ n ∈ ns, n.IsProper) :
    watches.eventsOf ns naming = ((watches.heard ns).map Notice.toEvent, watches.left ns) := by
  induction ns generalizing watches with
  | nil => rfl
  | cons n ns ih =>
      have hAfter : (if n.signals.remove || n.signals.rename then watches.dropTree n.loc
          else watches) = watches.after n := rfl
      have hRest := ih (h.after n) fun m hm => hProper m (by simp [hm])
      rw [eventsOf, hAfter, hRest, eventOf_eq h (hProper n (by simp)), heard, left_cons]
      by_cases hHears : watches.hears n = true
      · simp [hHears]
      · simp [hHears]

/-- Without watches there are no events. -/
theorem eventsOf_nil (ns : List Notice) (naming : Naming) :
    eventsOf [] ns naming = ([], []) := by
  induction ns with
  | nil => rfl
  | cons n ns ih =>
      have hLeft :
          (if n.signals.remove || n.signals.rename then dropTree [] n.loc else []) = [] := by
        simp [dropTree]
      have hNone : eventOf [] n naming = none := by simp [eventOf, on?]
      rw [eventsOf, hLeft, ih, hNone]
      rfl

theorem left_append (watches : Watches) (ns more : List Notice) :
    watches.left (ns ++ more) = (watches.left ns).left more := by
  simp [left]

theorem heard_append (watches : Watches) (ns more : List Notice) :
    watches.heard (ns ++ more) = watches.heard ns ++ (watches.left ns).heard more := by
  induction ns generalizing watches with
  | nil => rfl
  | cons n ns ih =>
      have hRest := ih (watches.after n)
      rw [List.cons_append, heard, hRest, heard, List.append_assoc]
      rfl

theorem on_left_iff {dir : Location} :
    (watches.left ns).On dir ↔
      watches.On dir ∧ ∀ n ∈ ns, n.gone = true → ¬ n.loc <+: dir := by
  induction ns generalizing watches with
  | nil => simp [left]
  | cons n ns ih =>
      have hRest := @ih (watches.after n)
      rw [on_after_iff] at hRest
      rw [left_cons, hRest]
      simp only [List.mem_cons, forall_eq_or_imp, not_and, and_assoc]

theorem mem_of_mem_heard (h : n ∈ watches.heard ns) : n ∈ ns := by
  induction ns generalizing watches with
  | nil => exact absurd h (by simp [heard])
  | cons m ns ih =>
      rw [heard, List.mem_append] at h
      rcases h with hHere | hLater
      · have hSame : n = m := by
          split at hHere
          · simpa using hHere
          · exact absurd hHere (by simp)
        simp [hSame]
      · exact List.mem_cons_of_mem m (ih hLater)

/-- What is heard is next to a watch that was there from the start. -/
theorem on_of_mem_heard (h : n ∈ watches.heard ns) :
    watches.On n.loc.dropLast ∨ watches.On n.loc ∧ n.gone = true := by
  induction ns generalizing watches with
  | nil => exact absurd h (by simp [heard])
  | cons m ns ih =>
      rw [heard, List.mem_append] at h
      rcases h with hHere | hLater
      · split at hHere
        · next hHears =>
            obtain rfl : n = m := by simpa using hHere
            exact hears_iff.1 hHears
        · exact absurd hHere (by simp)
      · rcases ih hLater with hParent | ⟨hSelf, hGone⟩
        · exact Or.inl (on_after_iff.1 hParent).1
        · exact Or.inr ⟨(on_after_iff.1 hSelf).1, hGone⟩

/-! ## Watches of a workspace -/

/-- The watches sit below a root, and on every directory on the way to them. -/
def UpTo (watches : Watches) (root : Location) : Prop :=
  ∀ dir, watches.On dir →
    root <+: dir ∧ ∀ above, root <+: above → above <+: dir → watches.On above

theorem UpTo.left {root : Location} (h : watches.UpTo root) (ns : List Notice) :
    (watches.left ns).UpTo root := by
  intro dir hOn
  rw [on_left_iff] at hOn
  obtain ⟨hRoot, hUp⟩ := h dir hOn.1
  refine ⟨hRoot, fun above hAbove hBelow => on_left_iff.2 ⟨hUp above hAbove hBelow, ?_⟩⟩
  intro n hn hGone hBad
  exact hOn.2 n hn hGone (hBad.trans hBelow)

private theorem prefix_dropLast {above loc : Location} (h : above <+: loc) (hNe : above ≠ loc) :
    above <+: loc.dropLast := by
  obtain ⟨rest, rfl⟩ := h
  have hRest : rest ≠ [] := fun hNil => hNe (by simp [hNil])
  rw [List.dropLast_append_of_ne_nil hRest]
  exact List.prefix_append above rest.dropLast

/-- Nothing strictly below a directory without a watch is heard. -/
theorem UpTo.on_of_heard {root dir : Location} (h : watches.UpTo root) (hRoot : root <+: dir)
    (hHeard : n ∈ watches.heard ns) (hBelow : dir <+: n.loc) (hNe : dir ≠ n.loc) :
    watches.On dir := by
  rcases on_of_mem_heard hHeard with hParent | ⟨hSelf, -⟩
  · exact (h _ hParent).2 dir hRoot (prefix_dropLast hBelow hNe)
  · exact (h _ hSelf).2 dir hRoot hBelow

/-- A notice that something is gone is heard if it takes a watch away. -/
theorem UpTo.hears_of_on {root dir : Location} (h : watches.UpTo root) (hGone : n.gone = true)
    (hRoot : ¬ n.loc <+: root) (hOn : watches.On dir) (hBelow : n.loc <+: dir) :
    watches.hears n = true := by
  obtain ⟨hDir, hUp⟩ := h dir hOn
  have hAbove : root <+: n.loc :=
    (List.prefix_or_prefix_of_prefix hDir hBelow).resolve_right hRoot
  exact hears_iff.2 (Or.inr ⟨hUp n.loc hAbove hBelow, hGone⟩)

/-- The watches sit where they are due and nowhere else. -/
def Exact (watches : Watches) (root : Location) (disk : Disk) : Prop :=
  ∀ dir, watches.On dir ↔ Due root disk dir

theorem Exact.upTo {root : Location} {disk : Disk} (h : watches.Exact root disk)
    (hTree : disk.IsTree) : watches.UpTo root := by
  intro dir hOn
  obtain ⟨hDir, hIn, hAddress⟩ := (h dir).1 hOn
  refine ⟨hIn.isPrefix, fun above hRoot hBelow => (h above).2 ⟨?_, hIn.of_isPrefix hRoot hBelow,
    hAddress.of_isPrefix hBelow⟩⟩
  exact hTree.directory_of_prefix hBelow hDir

end Watches

/-! ## Announcements -/

section Announcements

variable {loc : Location} {ns more : List Notice} {is : Notice → Prop}

/-- Among some notices there is one of a kind after which nothing at, above or
below the location has gone. -/
def Standing (is : Notice → Prop) (loc : Location) (ns : List Notice) : Prop :=
  ∃ before n later, ns = before ++ n :: later ∧ is n ∧
    ∀ m ∈ later, m.gone = true → ¬ m.loc <+: loc ∧ ¬ loc <+: m.loc

/-- The notice tells that something was created at or above the location. -/
def Creates (loc : Location) (n : Notice) : Prop :=
  n.signals = { create := true } ∧ n.loc <+: loc

/-- The notice tells that something was created at or above the location, or
that the very location was written. -/
def Renews (loc : Location) (n : Notice) : Prop :=
  Creates loc n ∨ n.signals = { write := true } ∧ n.loc = loc

/-- Some notice tells that something at or above the location is gone. -/
def ReportedGone (loc : Location) (ns : List Notice) : Prop :=
  ∃ n ∈ ns, n.gone = true ∧ n.loc <+: loc

theorem Standing.mono {is' : Notice → Prop} (h : Standing is loc ns) (hKind : ∀ n, is n → is' n) :
    Standing is' loc ns := by
  obtain ⟨before, n, later, hSplit, hIs, hLater⟩ := h
  exact ⟨before, n, later, hSplit, hKind n hIs, hLater⟩

theorem Standing.append (h : Standing is loc ns)
    (hMore : ∀ m ∈ more, m.gone = true → ¬ m.loc <+: loc ∧ ¬ loc <+: m.loc) :
    Standing is loc (ns ++ more) := by
  obtain ⟨before, n, later, rfl, hIs, hLater⟩ := h
  refine ⟨before, n, later ++ more, by simp, hIs, fun m hm => ?_⟩
  exact (List.mem_append.1 hm).elim (hLater m) (hMore m)

theorem standing_concat {n : Notice} (hIs : is n) : Standing is loc (ns ++ [n]) :=
  ⟨ns, n, [], rfl, hIs, by simp⟩

/-- What announces a directory announces what is in it. -/
theorem Standing.below {dir : Location} (h : Standing (Creates dir) dir ns) (hDir : dir <+: loc) :
    Standing (Creates loc) loc ns := by
  obtain ⟨before, n, later, rfl, ⟨hSignals, hAbove⟩, hLater⟩ := h
  refine ⟨before, n, later, rfl, ⟨hSignals, hAbove.trans hDir⟩, fun m hm hGone => ?_⟩
  obtain ⟨hNotAbove, hNotBelow⟩ := hLater m hm hGone
  refine ⟨fun hBad => ?_, fun hBad => hNotBelow (hDir.trans hBad)⟩
  rcases List.prefix_or_prefix_of_prefix hBad hDir with hUp | hDown
  · exact hNotAbove hUp
  · exact hNotBelow hDown

theorem reportedGone_append :
    ReportedGone loc (ns ++ more) ↔ ReportedGone loc ns ∨ ReportedGone loc more := by
  unfold ReportedGone
  constructor
  · rintro ⟨n, hn, hGone⟩
    exact (List.mem_append.1 hn).imp (⟨n, ·, hGone⟩) (⟨n, ·, hGone⟩)
  · rintro (⟨n, hn, hGone⟩ | ⟨n, hn, hGone⟩)
    · exact ⟨n, List.mem_append_left more hn, hGone⟩
    · exact ⟨n, List.mem_append_right ns hn, hGone⟩

theorem ReportedGone.below {dir : Location} (h : ReportedGone dir ns) (hDir : dir <+: loc) :
    ReportedGone loc ns := by
  obtain ⟨n, hn, hGone, hAbove⟩ := h
  exact ⟨n, hn, hGone, hAbove.trans hDir⟩

end Announcements

namespace Watches

variable {watches : Watches} {root dir : Location} {ns : List Notice}

theorem mem_heard_cons {n : Notice} (h : watches.hears n = true) (ns : List Notice) :
    n ∈ watches.heard (n :: ns) := by
  simp [heard, h]

theorem reportedGone_cons {loc : Location} {n : Notice}
    (h : ReportedGone loc ((watches.after n).heard ns)) :
    ReportedGone loc (watches.heard (n :: ns)) := by
  obtain ⟨m, hm, hGone⟩ := h
  exact ⟨m, List.mem_append_right _ hm, hGone⟩

/-- A watch that is gone was reported gone. -/
theorem UpTo.on_left_or_reportedGone (h : watches.UpTo root)
    (hKept : ∀ n ∈ ns, n.gone = true → ¬ n.loc <+: root) (hOn : watches.On dir) :
    (watches.left ns).On dir ∨ ReportedGone dir (watches.heard ns) := by
  induction ns generalizing watches with
  | nil => exact Or.inl hOn
  | cons n ns ih =>
      by_cases hTakes : n.gone = true ∧ n.loc <+: dir
      · have hHears := h.hears_of_on hTakes.1 (hKept n (by simp) hTakes.1) hOn hTakes.2
        exact Or.inr ⟨n, mem_heard_cons hHears ns, hTakes⟩
      · have hStays : (watches.after n).On dir := on_after_iff.2 ⟨hOn, hTakes⟩
        have hRest := ih (h.left [n]) (fun m hm => hKept m (by simp [hm])) hStays
        exact hRest.imp_right reportedGone_cons

/-- When a tree goes, what lies in a watched directory of it, or is the tree in a
watched directory, is reported gone. -/
theorem UpTo.reportedGone_of_departure (h : watches.UpTo root) {loc : Location} {name : Text}
    (hRoot : ¬ loc <+: root) (hNotices : ∀ n ∈ ns, n.gone = true ∧ loc <+: n.loc)
    (hTop : ∃ n ∈ ns, n.loc = loc) (hOn : watches.On dir) (hLoc : loc <+: dir ++ [name]) :
    ReportedGone (dir ++ [name]) (watches.heard ns) := by
  induction ns generalizing watches with
  | nil => exact absurd hTop (by simp)
  | cons n ns ih =>
      obtain ⟨hGone, hBelow⟩ := hNotices n (by simp)
      have hNotRoot : ¬ n.loc <+: root := fun hBad => hRoot (hBelow.trans hBad)
      by_cases hTakes : n.loc <+: dir ++ [name]
      · -- This notice is about the tree or a part of it that holds the place.
        have hHears : watches.hears n = true := by
          rcases List.prefix_concat_iff.1 hTakes with hSame | hAbove
          · exact hears_iff.2 (Or.inl (by simpa [hSame] using hOn))
          · exact h.hears_of_on hGone hNotRoot hOn hAbove
        exact ⟨n, mem_heard_cons hHears ns, hGone, hTakes⟩
      · have hStays : (watches.after n).On dir := by
          refine on_after_iff.2 ⟨hOn, fun hBad => hTakes ?_⟩
          exact hBad.2.trans (List.prefix_append dir [name])
        have hTop' : ∃ m ∈ ns, m.loc = loc := by
          obtain ⟨m, hm, hSame⟩ := hTop
          rcases List.mem_cons.1 hm with rfl | hLater
          · exact absurd (hSame ▸ hLoc) hTakes
          · exact ⟨m, hLater, hSame⟩
        exact reportedGone_cons
          (ih (h.left [n]) (fun m hm => hNotices m (by simp [hm])) hTop' hStays)

end Watches

end DottedNames
