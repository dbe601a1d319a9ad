import DottedNames.Disk.Change
import DottedNames.Proofs.Paths

/-!
# Disks as trees

A table of entries is a tree when no location occurs twice, every name in it is
one that a directory can hold, and every entry lies in a directory. A plain
tree has no symbolic links. On a plain tree the walk along a path never turns
aside, so a path leads to the location with the path's own names or nowhere.
On any tree this holds of the paths of proper names at which, and above which, no
link stands; their locations are `Direct`.

What can still keep a path from being followed is its form: a byte that is zero,
a name that is too long, or too great a length in all. `Addressable` says that a
location's path has no such fault.

## Main results

* `Arrival`, `arrival_of_walk` — where a walk on a plain tree ends.
* `location_of_locate` — the location that a path leads to, by its names.
* `entry_ofNames_iff`, `read_ofNames_iff` — what stands at a location is what
  its path shows.
* `mem_children_iff` — what a directory lists.
-/

namespace DottedNames

namespace Disk

/-- The entries of a disk make up a tree. -/
structure IsTree (disk : Disk) : Prop where
  distinct : (disk.entries.map Prod.fst).Nodup
  named : ∀ e ∈ disk.entries, e.1 ≠ [] ∧ ∀ name ∈ e.1, IsName name
  held : ∀ e ∈ disk.entries, disk.get? e.1.dropLast = some .directory

instance (disk : Disk) : Decidable disk.IsTree :=
  decidable_of_iff ((disk.entries.map Prod.fst).Nodup ∧
      (∀ e ∈ disk.entries, e.1 ≠ [] ∧ ∀ name ∈ e.1, IsName name) ∧
        ∀ e ∈ disk.entries, disk.get? e.1.dropLast = some .directory)
    ⟨fun ⟨hDistinct, hNamed, hHeld⟩ => ⟨hDistinct, hNamed, hHeld⟩,
      fun h => ⟨h.distinct, h.named, h.held⟩⟩

/-- A tree without symbolic links. -/
structure IsPlain (disk : Disk) : Prop extends IsTree disk where
  linkFree : ∀ e ∈ disk.entries, ∀ target, e.2 ≠ .link target

theorem isPlain_empty : IsPlain {} :=
  ⟨⟨List.nodup_nil, by simp, by simp⟩, by simp⟩

theorem mem_of_get? {disk : Disk} {loc : Location} {entry : Entry} (hLoc : loc ≠ [])
    (h : disk.get? loc = some entry) : (loc, entry) ∈ disk.entries := by
  cases loc with
  | nil => exact absurd rfl hLoc
  | cons name rest =>
      obtain ⟨before, after, hSplit, -⟩ := List.lookup_eq_some_iff.1 h
      rw [hSplit]
      simp

/-- Where no location occurs twice, every entry is found at its location. -/
theorem get?_of_mem {disk : Disk} (hDistinct : (disk.entries.map Prod.fst).Nodup) {loc : Location}
    {entry : Entry} (hLoc : loc ≠ []) (h : (loc, entry) ∈ disk.entries) :
    disk.get? loc = some entry := by
  have hLookup : disk.entries.lookup loc = some entry := by
    obtain ⟨before, after, hSplit⟩ := List.append_of_mem h
    refine List.lookup_eq_some_iff.2 ⟨before, after, hSplit, fun e he => bne_iff_ne.2 ?_⟩
    rw [hSplit, List.map_append, List.map_cons, List.nodup_append] at hDistinct
    exact (hDistinct.2.2 e.1 (List.mem_map_of_mem he) loc (by simp)).symm
  cases loc with
  | nil => exact absurd rfl hLoc
  | cons name rest => exact hLookup

namespace IsTree

variable {disk : Disk}

theorem get?_of_mem (h : disk.IsTree) {loc : Location} {entry : Entry}
    (hMem : (loc, entry) ∈ disk.entries) : disk.get? loc = some entry :=
  Disk.get?_of_mem h.distinct (h.named _ hMem).1 hMem

/-- Every location of the tree has proper names. -/
theorem isName (h : disk.IsTree) {loc : Location} {entry : Entry}
    (hLoc : disk.get? loc = some entry) : ∀ name ∈ loc, IsName name := by
  by_cases hNil : loc = []
  · simp [hNil]
  · exact (h.named _ (mem_of_get? hNil hLoc)).2

/-- What has something in it is a directory. -/
theorem directory_of_append (h : disk.IsTree) {loc rest : Location} {entry : Entry}
    (hRest : rest ≠ []) (hLoc : disk.get? (loc ++ rest) = some entry) :
    disk.get? loc = some .directory := by
  induction hLen : rest.length generalizing rest entry with
  | zero => exact absurd (List.length_eq_zero_iff.1 hLen) hRest
  | succ n ih =>
      have hHeld := h.held _ (mem_of_get? (by simp [hRest]) hLoc)
      rw [List.dropLast_append_of_ne_nil hRest] at hHeld
      by_cases hLast : rest.dropLast = []
      · simpa [hLast] using hHeld
      · exact ih hLast hHeld (by simp [hLen])

/-- What is strictly above an entry is a directory. -/
theorem directory_of_strict (h : disk.IsTree) {above loc : Location} {entry : Entry}
    (hAbove : above <+: loc) (hNe : above ≠ loc) (hLoc : disk.get? loc = some entry) :
    disk.get? above = some .directory := by
  obtain ⟨rest, rfl⟩ := hAbove
  exact h.directory_of_append (fun hNil => hNe (by simp [hNil])) hLoc

/-- What is above a directory is one. -/
theorem directory_of_prefix (h : disk.IsTree) {above dir : Location} (hAbove : above <+: dir)
    (hDir : disk.get? dir = some .directory) : disk.get? above = some .directory := by
  by_cases hSame : above = dir
  · exact hSame ▸ hDir
  · exact h.directory_of_strict hAbove hSame hDir

/-- The directory of an entry. -/
theorem directory_of_concat (h : disk.IsTree) {dir : Location} {name : Text} {entry : Entry}
    (hLoc : disk.get? (dir ++ [name]) = some entry) : disk.get? dir = some .directory :=
  h.directory_of_append (by simp) hLoc

/-- What a directory lists is what stands in it. -/
theorem mem_children_iff (h : disk.IsTree) {loc : Location} {name : Text} {entry : Entry} :
    (name, entry) ∈ disk.children loc ↔ disk.get? (loc ++ [name]) = some entry := by
  unfold children
  rw [List.mem_filterMap]
  constructor
  · rintro ⟨e, hMem, hChild⟩
    cases hLast : e.1.getLast? with
    | none => simp [hLast] at hChild
    | some last =>
        simp only [hLast] at hChild
        split at hChild
        · next hDir =>
            obtain ⟨rfl, rfl⟩ := Prod.mk.inj (Option.some.inj hChild)
            have hLoc : loc ++ [last] = e.1 := by
              obtain ⟨front, hFront⟩ := List.getLast?_eq_some_iff.1 hLast
              rw [← hDir, hFront, List.dropLast_concat]
            rw [hLoc]
            exact h.get?_of_mem hMem
        · exact absurd hChild (by simp)
  · intro hGet
    exact ⟨_, mem_of_get? (by simp) hGet, by simp⟩

end IsTree

theorem IsPlain.not_link {disk : Disk} (h : disk.IsPlain) {loc : Location} {target : Text} :
    disk.get? loc ≠ some (.link target) := by
  by_cases hNil : loc = []
  · simp [hNil, get?]
  · exact fun hLink => h.linkFree _ (mem_of_get? hNil hLink) target rfl

/-- A tree with no symbolic link at a location or above it. -/
structure Direct (disk : Disk) (loc : Location) : Prop extends IsTree disk where
  unlinked : ∀ above, above <+: loc → ∀ target, disk.get? above ≠ some (.link target)

theorem IsPlain.direct {disk : Disk} (h : disk.IsPlain) (loc : Location) : disk.Direct loc :=
  ⟨h.toIsTree, fun _ _ _ => h.not_link⟩

/-- In a directory only the place itself can be a link. -/
theorem IsTree.direct_concat {disk : Disk} (h : disk.IsTree) {dir : Location} {name : Text}
    (hDir : disk.get? dir = some .directory)
    (hLink : ∀ target, disk.get? (dir ++ [name]) ≠ some (.link target)) :
    disk.Direct (dir ++ [name]) := by
  refine ⟨h, fun above hAbove target hTarget => ?_⟩
  rcases List.prefix_concat_iff.1 hAbove with rfl | hUp
  · exact hLink target hTarget
  · rw [h.directory_of_prefix hUp hDir] at hTarget
    exact absurd hTarget (by simp)

private theorem le_foldl_max (lens : List Nat) (start : Nat) :
    start ≤ lens.foldl max start ∧ ∀ len ∈ lens, len ≤ lens.foldl max start := by
  induction lens generalizing start with
  | nil => simp
  | cons first lens ih =>
      obtain ⟨hMax, hLens⟩ := ih (max start first)
      rw [List.foldl_cons]
      refine ⟨by omega, ?_⟩
      intro len hLen
      cases List.mem_cons.1 hLen with
      | inl hFirst => omega
      | inr hLater => exact hLens len hLater

theorem length_le_depth {disk : Disk} {loc : Location} {entry : Entry}
    (h : disk.get? loc = some entry) : loc.length ≤ disk.depth := by
  by_cases hNil : loc = []
  · simp [hNil]
  · exact (le_foldl_max _ 0).2 _ (List.mem_map.2 ⟨_, mem_of_get? hNil h, rfl⟩)

/-! ## Walking along a path -/

/-- Names are looked up in directories. -/
theorem directory_of_walk {disk : Disk} {ending : Ending} {loc : Location} {name : Text}
    {rest : List Text} {passage : Passage} (h : disk.walk ending loc (name :: rest) = .ok passage) :
    disk.get? loc = some .directory := by
  rw [walk] at h
  split at h
  · assumption
  · exact absurd h (by simp)

theorem walk_here {disk : Disk} (ending : Ending) {loc : Location} {name : Text} (rest : List Text)
    (hHere : name = [] ∨ name = Trail.here) (hDir : disk.get? loc = some .directory) :
    disk.walk ending loc (name :: rest) = disk.walk ending loc rest := by
  rw [walk, hDir]
  simp only [if_pos hHere]

theorem walk_above {disk : Disk} (ending : Ending) {loc : Location} (rest : List Text)
    (hDir : disk.get? loc = some .directory) :
    disk.walk ending loc (Trail.above :: rest) = disk.walk ending loc.dropLast rest := by
  have hNotHere : ¬ (Trail.above = [] ∨ Trail.above = Trail.here) := by decide
  rw [walk, hDir]
  simp only [if_neg hNotHere, if_true]

/-- One proper name, where no link stands. -/
theorem walk_name {disk : Disk} (ending : Ending) {loc : Location} {name : Text} (rest : List Text)
    (hName : IsName name) (hDir : disk.get? loc = some .directory)
    (hLink : ∀ target, disk.get? (loc ++ [name]) ≠ some (.link target)) :
    disk.walk ending loc (name :: rest) =
      if maxName < name.length then .error .nameTooLong
      else if (disk.get? (loc ++ [name])).isSome then disk.walk ending (loc ++ [name]) rest
      else if ending.absent && rest.isEmpty then .ok (.arrived (loc ++ [name]))
      else .error .notFound := by
  have hPlainName : ¬ (name = [] ∨ name = Trail.here) := fun hEither =>
    hEither.elim hName.ne_nil hName.ne_here
  rw [walk, hDir]
  simp only [if_neg hPlainName, if_neg hName.ne_above]
  cases hHere : disk.get? (loc ++ [name]) with
  | none => simp
  | some here =>
      cases here with
      | link target => exact absurd hHere (hLink target)
      | file content => simp
      | directory => simp

/-- Where a walk ends: at the names that are left when the path's names are
taken one after the other, on an entry, or on a free name in a directory. -/
structure Arrival (disk : Disk) (ending : Ending) (start : Location) (names : List Text)
    (found : Location) : Prop where
  lexical : found = (names.foldl (Trail.advance true) start.reverse).reverse
  short : ∀ name ∈ found, name ∈ start ∨ name.length ≤ maxName
  present : (disk.get? found).isSome ∨
    ending.absent = true ∧ disk.get? found = none ∧
      ∃ dir name, found = dir ++ [name] ∧ IsName name ∧ disk.get? dir = some .directory

private theorem advance_above {loc : Location} (h : ∀ n ∈ loc, IsName n) :
    Trail.advance true loc.reverse Trail.above = loc.dropLast.reverse := by
  have hNotPlain : ¬ (Trail.above = [] ∨ Trail.above = Trail.here) := by decide
  unfold Trail.advance
  rw [if_neg hNotPlain, if_pos rfl]
  cases hRev : loc.reverse with
  | nil => simp [List.reverse_eq_nil_iff.1 hRev]
  | cons last before =>
      have hMem : last ∈ loc := List.mem_reverse.1 (hRev ▸ List.mem_cons_self)
      have hLoc : loc = before.reverse ++ [last] := by
        rw [← List.reverse_reverse loc, hRev, List.reverse_cons]
      simp [(h last hMem).ne_above, hLoc]

namespace Arrival

variable {disk : Disk} {ending : Ending} {loc found : Location} {name : Text} {rest : List Text}

theorem here (h : Arrival disk ending loc rest found) (hHere : name = [] ∨ name = Trail.here) :
    Arrival disk ending loc (name :: rest) found := by
  refine ⟨?_, h.short, h.present⟩
  rw [h.lexical, List.foldl_cons]
  unfold Trail.advance
  rw [if_pos hHere]

theorem above (h : Arrival disk ending loc.dropLast rest found) (hLoc : ∀ n ∈ loc, IsName n) :
    Arrival disk ending loc (Trail.above :: rest) found := by
  refine ⟨?_, fun n hn => ?_, h.present⟩
  · rw [h.lexical, List.foldl_cons, advance_above hLoc]
  · exact (h.short n hn).imp_left (List.dropLast_subset loc ·)

theorem next (h : Arrival disk ending (loc ++ [name]) rest found) (hName : IsName name)
    (hShort : name.length ≤ maxName) : Arrival disk ending loc (name :: rest) found := by
  refine ⟨?_, fun n hn => ?_, h.present⟩
  · rw [h.lexical, List.foldl_cons, Trail.advance_name hName, List.reverse_concat]
  · rcases h.short n hn with hOld | hNew
    · rcases List.mem_append.1 hOld with hLoc | hLast
      · exact Or.inl hLoc
      · exact Or.inr (List.mem_singleton.1 hLast ▸ hShort)
    · exact Or.inr hNew

end Arrival

/-- A walk on a plain tree is never turned aside. -/
theorem arrival_of_walk {disk : Disk} (hPlain : disk.IsPlain) {ending : Ending}
    {names : List Text} {loc : Location} {passage : Passage} (hNames : ∀ n ∈ names, Byte.slash ∉ n)
    (hLoc : (disk.get? loc).isSome) (h : disk.walk ending loc names = .ok passage) :
    ∃ found, passage = .arrived found ∧ Arrival disk ending loc names found := by
  induction names generalizing loc with
  | nil =>
      have hEnd : passage = .arrived loc := by simpa [walk] using h.symm
      exact ⟨loc, hEnd, by simp, fun n hn => Or.inl hn, Or.inl hLoc⟩
  | cons name rest ih =>
      have hRestNames : ∀ n ∈ rest, Byte.slash ∉ n := fun n hn => hNames n (by simp [hn])
      have hDir := directory_of_walk h
      by_cases hHere : name = [] ∨ name = Trail.here
      · rw [walk_here ending rest hHere hDir] at h
        obtain ⟨found, hEnd, hArrival⟩ := ih hRestNames hLoc h
        exact ⟨found, hEnd, hArrival.here hHere⟩
      by_cases hAbove : name = Trail.above
      · subst hAbove
        rw [walk_above ending rest hDir] at h
        have hUp : disk.get? loc.dropLast = some .directory :=
          hPlain.directory_of_prefix (List.dropLast_prefix loc) hDir
        obtain ⟨found, hEnd, hArrival⟩ := ih hRestNames (by simp [hUp]) h
        exact ⟨found, hEnd, hArrival.above (hPlain.isName hDir)⟩
      rw [not_or] at hHere
      have hName : IsName name := ⟨hHere.1, hHere.2, hAbove, hNames name (by simp)⟩
      rw [walk_name ending rest hName hDir fun target => hPlain.not_link] at h
      split at h
      · exact absurd h (by simp)
      · next hShort =>
          split at h
          · next hThere =>
              obtain ⟨found, hEnd, hArrival⟩ := ih hRestNames hThere h
              exact ⟨found, hEnd, hArrival.next hName (Nat.le_of_not_lt hShort)⟩
          · next hFree =>
              split at h
              · next hLast =>
                  rw [Bool.and_eq_true, List.isEmpty_iff] at hLast
                  obtain ⟨hAbsent, rfl⟩ := hLast
                  have hEnds : Arrival disk ending (loc ++ [name]) [] (loc ++ [name]) :=
                    ⟨by simp, fun n hn => Or.inl hn,
                      Or.inr ⟨hAbsent, by simpa using hFree, loc, name, rfl, hName, hDir⟩⟩
                  exact ⟨loc ++ [name], by simpa using h.symm,
                    hEnds.next hName (Nat.le_of_not_lt hShort)⟩
              · exact absurd h (by simp)

theorem Direct.not_link_next {disk : Disk} {loc : Location} {name : Text} {rest : List Text}
    (h : disk.Direct (loc ++ name :: rest)) (target : Text) :
    disk.get? (loc ++ [name]) ≠ some (.link target) :=
  h.unlinked _ ⟨rest, by simp⟩ target

/-- The walk along the names of an entry arrives at it. -/
theorem walk_of_present {disk : Disk} (ending : Ending) {names : List Text} {loc : Location}
    {entry : Entry} (hDirect : disk.Direct (loc ++ names)) (h : disk.get? (loc ++ names) = some entry)
    (hShort : ∀ n ∈ names, n.length ≤ maxName) :
    disk.walk ending loc names = .ok (.arrived (loc ++ names)) := by
  induction names generalizing loc with
  | nil => simp [walk]
  | cons name rest ih =>
      have hName : IsName name := hDirect.isName h name (by simp)
      have hDir : disk.get? loc = some .directory := hDirect.directory_of_append (by simp) h
      have hAppend : loc ++ name :: rest = (loc ++ [name]) ++ rest := by simp
      have hHere : (disk.get? (loc ++ [name])).isSome := by
        by_cases hRest : rest = []
        · rw [← hRest, h]
          rfl
        · rw [hDirect.directory_of_append hRest (hAppend ▸ h)]
          rfl
      rw [walk_name ending rest hName hDir hDirect.not_link_next,
        if_neg (Nat.not_lt.2 (hShort name (by simp))), if_pos hHere, hAppend]
      exact ih (hAppend ▸ hDirect) (hAppend ▸ h) fun n hn => hShort n (by simp [hn])

/-- Where no link stands the walk along proper names leads to their location or
nowhere. -/
theorem arrived_of_walk {disk : Disk} {ending : Ending} {names : List Text} {loc : Location}
    {passage : Passage} (hDirect : disk.Direct (loc ++ names)) (hNames : ∀ n ∈ names, IsName n)
    (hLoc : (disk.get? loc).isSome) (h : disk.walk ending loc names = .ok passage) :
    passage = .arrived (loc ++ names) ∧ (∀ n ∈ names, n.length ≤ maxName) ∧
      ((disk.get? (loc ++ names)).isSome ∨ ending.absent = true) := by
  induction names generalizing loc with
  | nil =>
      have hEnd : passage = .arrived loc := by simpa [walk] using h.symm
      exact ⟨by simp [hEnd], by simp, Or.inl (by simpa using hLoc)⟩
  | cons name rest ih =>
      have hAppend : loc ++ name :: rest = (loc ++ [name]) ++ rest := by simp
      have hDir := directory_of_walk h
      rw [walk_name ending rest (hNames name (by simp)) hDir hDirect.not_link_next] at h
      split at h
      · exact absurd h (by simp)
      · next hShort =>
          split at h
          · next hHere =>
              obtain ⟨hEnd, hLater, hThere⟩ :=
                ih (hAppend ▸ hDirect) (fun n hn => hNames n (by simp [hn])) hHere h
              rw [hAppend]
              refine ⟨hEnd, fun n hn => ?_, hThere⟩
              rcases List.mem_cons.1 hn with rfl | hRest
              · exact Nat.le_of_not_lt hShort
              · exact hLater n hRest
          · split at h
            · next hLast =>
                rw [Bool.and_eq_true, List.isEmpty_iff] at hLast
                obtain ⟨hAbsent, rfl⟩ := hLast
                refine ⟨by simpa using h.symm, ?_, Or.inr hAbsent⟩
                simpa using Nat.le_of_not_lt hShort
            · exact absurd h (by simp)

/-! ## Locations of paths -/

/-- Nothing in the form of the location's path keeps it from being followed. -/
structure Addressable (loc : Location) : Prop where
  no_zero : (0 : UInt8) ∉ Path.ofNames loc
  length_lt : (Path.ofNames loc).length < maxPath
  names_le : ∀ name ∈ loc, name.length ≤ maxName

/-- The directories above an addressable location are addressable. -/
theorem Addressable.of_append {loc rest : Location} (h : Addressable (loc ++ rest)) :
    Addressable loc := by
  have hPath : ∃ tail, Path.ofNames (loc ++ rest) = Path.ofNames loc ++ tail := by
    by_cases hNil : loc = []
    · exact ⟨Text.join [Byte.slash] rest, by simp [hNil, Path.ofNames_eq, Text.join]⟩
    · refine ⟨rest.flatMap (Byte.slash :: ·), ?_⟩
      rw [Path.ofNames_eq_flatMap hNil, Path.ofNames_eq_flatMap (by simp [hNil]),
        List.flatMap_append]
  obtain ⟨tail, hTail⟩ := hPath
  have hZero := h.no_zero
  have hLength := h.length_lt
  rw [hTail] at hZero hLength
  rw [List.length_append] at hLength
  exact ⟨fun hMem => hZero (List.mem_append_left tail hMem), by omega,
    fun name hName => h.names_le name (List.mem_append_left rest hName)⟩

theorem Addressable.of_isPrefix {dir loc : Location} (h : Addressable loc) (hDir : dir <+: loc) :
    Addressable dir := by
  obtain ⟨rest, rfl⟩ := hDir
  exact h.of_append

end Disk

namespace View

variable {view : View}

/-- The parts of a path as they are walked from the top. -/
def parts (view : View) (path : Text) : List Text :=
  if Path.isRooted path then Text.splitOn Byte.slash path
  else Text.splitOn Byte.slash view.current ++ Text.splitOn Byte.slash path

theorem locate_eq_ok_iff {ending : Disk.Ending} {path : Text} {loc : Location} :
    view.locate ending path = .ok loc ↔
      (0 : UInt8) ∉ path ∧ path ≠ [] ∧ path.length < Disk.maxPath ∧
        view.disk.resolve ending Disk.maxLinks [] (view.parts path) = .ok loc := by
  unfold locate parts
  by_cases hZero : path.contains 0 = true
  · have hMem : (0 : UInt8) ∈ path := by simpa using hZero
    simp [hMem]
  · have hMem : (0 : UInt8) ∉ path := by simpa using hZero
    by_cases hEmpty : path.isEmpty = true
    · have hNil : path = [] := by simpa using hEmpty
      simp [hNil]
    · have hNil : path ≠ [] := by simpa using hEmpty
      by_cases hLong : Disk.maxPath ≤ path.length
      · have hNot : ¬ path.length < Disk.maxPath := Nat.not_lt.2 hLong
        simp [hMem, hNil, hLong, hNot]
      · have hLt : path.length < Disk.maxPath := Nat.lt_of_not_le hLong
        simp [hMem, hNil, hLong, hLt]

theorem slash_not_mem_parts (view : View) (path : Text) :
    ∀ part ∈ view.parts path, Byte.slash ∉ part := by
  intro part hPart
  unfold parts at hPart
  split at hPart
  · exact Text.splitOn_no_sep _ _ part hPart
  · rcases List.mem_append.1 hPart with hCurrent | hPath
    · exact Text.splitOn_no_sep _ _ part hCurrent
    · exact Text.splitOn_no_sep _ _ part hPath

/-- A path that leads somewhere on a plain tree arrives there. -/
theorem arrival_of_locate (hPlain : view.disk.IsPlain) {ending : Disk.Ending} {path : Text}
    {loc : Location} (h : view.locate ending path = .ok loc) :
    Disk.Arrival view.disk ending [] (view.parts path) loc := by
  obtain ⟨-, -, -, hResolve⟩ := locate_eq_ok_iff.1 h
  have hTop : (view.disk.get? []).isSome := rfl
  have hNoSlash := slash_not_mem_parts view path
  unfold Disk.resolve at hResolve
  cases hWalk : view.disk.walk ending [] (view.parts path) with
  | error fault => simp [hWalk] at hResolve
  | ok passage =>
      obtain ⟨found, rfl, hArrival⟩ := Disk.arrival_of_walk hPlain hNoSlash hTop hWalk
      obtain rfl : found = loc := by simpa [hWalk] using hResolve
      exact hArrival

theorem parts_ofNames (view : View) (loc : Location) :
    view.parts (Path.ofNames loc) = Text.splitOn Byte.slash (Path.ofNames loc) := by
  rw [parts, if_pos (Path.isRooted_ofNames loc)]

/-- The walk along the path of a location is the walk along its names. -/
theorem walk_parts_ofNames (view : View) (ending : Disk.Ending) {loc : Location}
    (hNames : ∀ n ∈ loc, IsName n) :
    view.disk.walk ending [] (view.parts (Path.ofNames loc)) = view.disk.walk ending [] loc := by
  have hSkip : ∀ names, view.disk.walk ending [] ([] :: names) = view.disk.walk ending [] names :=
    fun names => Disk.walk_here ending names (Or.inl rfl) rfl
  rw [parts_ofNames]
  by_cases hNil : loc = []
  · subst hNil
    have hSplit : Text.splitOn Byte.slash (Path.ofNames []) = [[], []] := rfl
    rw [hSplit, hSkip, hSkip]
  · rw [Path.splitOn_ofNames hNil hNames, hSkip]

/-- The path of an entry leads to the entry. -/
theorem locate_ofNames {loc : Location} (hDirect : view.disk.Direct loc) (ending : Disk.Ending)
    {entry : Entry} (hGet : view.disk.get? loc = some entry) (hLoc : Disk.Addressable loc) :
    view.locate ending (Path.ofNames loc) = .ok loc := by
  refine locate_eq_ok_iff.2 ⟨hLoc.no_zero, by simp [Path.ofNames_eq], hLoc.length_lt, ?_⟩
  rw [Disk.resolve, walk_parts_ofNames view ending (hDirect.isName hGet),
    Disk.walk_of_present ending hDirect hGet hLoc.names_le]
  rfl

/-- A path made of proper names leads to their location or nowhere, where no link
stands. -/
theorem addressable_of_locate {loc found : Location} (hDirect : view.disk.Direct loc)
    {ending : Disk.Ending} (hNames : ∀ n ∈ loc, IsName n)
    (h : view.locate ending (Path.ofNames loc) = .ok found) :
    found = loc ∧ Disk.Addressable loc ∧
      ((view.disk.get? loc).isSome ∨ ending.absent = true) := by
  obtain ⟨hZero, -, hLength, hResolve⟩ := locate_eq_ok_iff.1 h
  rw [Disk.resolve, walk_parts_ofNames view ending hNames] at hResolve
  cases hWalk : view.disk.walk ending [] loc with
  | error fault => simp [hWalk] at hResolve
  | ok passage =>
      obtain ⟨rfl, hShort, hThere⟩ := Disk.arrived_of_walk hDirect hNames rfl hWalk
      have hFound : found = loc := by simpa [hWalk] using hResolve.symm
      exact ⟨hFound, ⟨hZero, hLength, hShort⟩, hThere⟩

/-- What the path of a location shows is what stands there. -/
theorem entry_ofNames_iff {loc : Location} (hDirect : view.disk.Direct loc) (ending : Disk.Ending)
    (hNames : ∀ n ∈ loc, IsName n) {entry : Entry} :
    view.entry ending (Path.ofNames loc) = .ok entry ↔
      Disk.Addressable loc ∧ view.disk.get? loc = some entry := by
  unfold View.entry
  constructor
  · intro h
    cases hLocate : view.locate ending (Path.ofNames loc) with
    | error fault => simp [hLocate, bind, Except.bind] at h
    | ok found =>
        obtain ⟨rfl, hLoc, -⟩ := addressable_of_locate hDirect hNames hLocate
        cases hGet : view.disk.get? found with
        | none => simp [hLocate, hGet, bind, Except.bind] at h
        | some there =>
            obtain rfl : there = entry := by simpa [hLocate, hGet, bind, Except.bind] using h
            exact ⟨hLoc, rfl⟩
  · rintro ⟨hLoc, hGet⟩
    simp [locate_ofNames hDirect ending hGet hLoc, hGet, bind, Except.bind]

/-- On a plain tree a path leads to the location with its names. -/
theorem location_of_locate {disk : Disk} (hPlain : disk.IsPlain) {ending : Disk.Ending}
    {path : Text} {loc : Location} (h : disk.locate ending path = .ok loc) :
    loc = Path.names (Byte.slash :: path) := by
  have hArrival : Disk.Arrival disk ending [] (View.parts { disk } path) loc :=
    arrival_of_locate hPlain h
  have hParts : (View.parts { disk } path).foldl (Trail.advance true) [] =
      (Text.splitOn Byte.slash path).foldl (Trail.advance true) [] := by
    have hTop : Text.splitOn Byte.slash [Byte.slash] = [[], []] := rfl
    unfold parts
    split
    · rfl
    · simp [hTop, Trail.advance_nil]
  rw [hArrival.lexical, List.reverse_nil, hParts]
  simp [Path.names, Trail.ofText, Text.splitOn, Trail.advance_nil]

/-- What reading the path of a location gives is what the file there holds. -/
theorem read_ofNames_iff {loc : Location} (hDirect : view.disk.Direct loc)
    (hNames : ∀ n ∈ loc, IsName n) {content : Text} :
    view.read (Path.ofNames loc) = .ok content ↔
      Disk.Addressable loc ∧ view.disk.get? loc = some (.file content) := by
  have hEntry : ∀ entry, view.follow (Path.ofNames loc) = .ok entry ↔ _ :=
    fun entry => entry_ofNames_iff hDirect { follow := true, absent := false } hNames
  rw [← hEntry]
  unfold View.read
  split
  · next found hFollow => simp [hFollow]
  · next other hNotFile hFollow =>
      constructor
      · intro hRead
        exact absurd hRead (by simp)
      · intro hFile
        rw [hFollow] at hFile
        exact absurd (Except.ok.inj hFile) (hNotFile content)
  · next fault hFollow => simp [hFollow]

end View

end DottedNames
