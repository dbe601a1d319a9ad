import DottedNames.Project
import DottedNames.Proofs.Trails

/-!
# Which directory is the root of a project

The search for the root of a file's project goes up from the file's directory.
`Path.ascent` lists the directories it can meet, each the directory of the one
before, and from some point on they are all the same one: `/` for a rooted path,
`.` for any other. The search stops there at the latest, and it does not look
inside that last directory. What it returns is the nearest of the others that
holds a marker, with the first marker there, and the file's own directory when
none does.

Since a marked directory is found from below it whichever way the search comes,
every file in the directories between a file and its root has the same project.

## Main results

* `markerIn_eq_some_iff`, `markerIn_eq_none_iff` — the marker of a directory.
* `locate_cases` — the two ways the search can end.
* `locate_nearest_marked` — the project of every path, on every disk.
-/

namespace DottedNames

namespace Project

/-- A directory has an entry with a name, of whatever type; a link stands for
itself, so it need not lead anywhere. -/
def Holds (view : View) (dir name : Text) : Prop :=
  ∃ entry, view.inspect (dir ++ Byte.slash :: name) = .ok entry

/-- A directory holds one of the three markers. -/
def IsMarked (view : View) (dir : Text) : Prop :=
  ∃ name ∈ [text "pyproject.toml", text ".git", text ".vscode"], Holds view dir name

/-- The first of the three markers that a directory holds. -/
def IsFirstMarker (view : View) (dir name : Text) : Prop :=
  ∃ before after, [text "pyproject.toml", text ".git", text ".vscode"] = before ++ name :: after ∧
    Holds view dir name ∧ ∀ other ∈ before, ¬ Holds view dir other

theorem IsFirstMarker.isMarked {view : View} {dir name : Text} (h : IsFirstMarker view dir name) :
    IsMarked view dir := by
  obtain ⟨before, after, hMarkers, hHolds, -⟩ := h
  exact ⟨name, by simp [hMarkers], hHolds⟩

/-! ## The marker of one directory -/

theorem isName_of_marker : ∀ name ∈ markers, IsName name := by
  have hNames : ∀ name ∈ markers, name ≠ [] ∧ name ≠ Trail.here ∧ name ≠ Trail.above ∧
      Byte.slash ∉ name := by decide
  intro name hName
  obtain ⟨hNil, hHere, hAbove, hSlash⟩ := hNames name hName
  exact ⟨hNil, hHere, hAbove, hSlash⟩

/-- Below the top, the path of a name in a directory is written with a slash. -/
theorem join_toText {t : Trail} (h : t.IsNormal) (hNames : t.names ≠ []) {name : Text}
    (hName : IsName name) : Path.join t.toText name = t.toText ++ Byte.slash :: name := by
  have hText := Trail.toText_ne_nil h
  have hRead : Trail.ofText (t.toText ++ Byte.slash :: name) =
      { t with names := t.names ++ [name] } := by
    have hAppend := Trail.ofText_append_names hText (List.cons_ne_nil name [])
      fun n hn => List.mem_singleton.1 hn ▸ hName
    rw [Trail.ofText_toText h] at hAppend
    exact hAppend
  rw [Path.join, if_neg (by simpa using hText), Path.clean, hRead, Trail.toText_concat hNames]

theorem isPresent_iff {view : View} {t : Trail} (h : t.IsNormal) (hNames : t.names ≠ [])
    {name : Text} (hName : name ∈ markers) :
    view.isPresent (Path.join t.toText name) = true ↔ Holds view t.toText name := by
  rw [join_toText h hNames (isName_of_marker name hName), View.isPresent, Holds]
  cases view.inspect (t.toText ++ Byte.slash :: name) <;> simp

theorem markerIn_eq_some_iff {view : View} {t : Trail} (h : t.IsNormal) (hNames : t.names ≠ [])
    {name : Text} : markerIn view t.toText = some name ↔ IsFirstMarker view t.toText name := by
  unfold markerIn
  rw [List.find?_eq_some_iff_append]
  constructor
  · rintro ⟨hPresent, before, after, hMarkers, hBefore⟩
    have hMem : ∀ other ∈ before ++ name :: after, other ∈ markers := fun other hOther =>
      hMarkers ▸ hOther
    refine ⟨before, after, hMarkers, (isPresent_iff h hNames (hMem name (by simp))).1 hPresent,
      fun other hOther hHolds => ?_⟩
    have hAbsent := hBefore other hOther
    rw [(isPresent_iff h hNames (hMem other (by simp [hOther]))).2 hHolds] at hAbsent
    exact absurd hAbsent (by decide)
  · rintro ⟨before, after, hMarkers, hHolds, hBefore⟩
    have hMem : ∀ other ∈ before ++ name :: after, other ∈ markers := fun other hOther =>
      (show markers = before ++ name :: after from hMarkers) ▸ hOther
    refine ⟨(isPresent_iff h hNames (hMem name (by simp))).2 hHolds, before, after, hMarkers,
      fun other hOther => ?_⟩
    have hAbsent := mt (isPresent_iff h hNames (hMem other (by simp [hOther]))).1
      (hBefore other hOther)
    simpa using hAbsent

theorem markerIn_eq_none_iff {view : View} {t : Trail} (h : t.IsNormal) (hNames : t.names ≠ []) :
    markerIn view t.toText = none ↔ ¬ IsMarked view t.toText := by
  unfold markerIn IsMarked
  rw [List.find?_eq_none]
  constructor
  · rintro hAbsent ⟨name, hName, hHolds⟩
    exact hAbsent name hName ((isPresent_iff h hNames hName).2 hHolds)
  · intro hNone name hName hPresent
    exact hNone ⟨name, hName, (isPresent_iff h hNames hName).1 hPresent⟩

/-! ## The search -/

/-- The search goes as far as there are names. -/
def reach (path : Text) : Nat := (Path.dirTrail path).names.length

theorem isNormal_dirTrail (path : Text) : (Path.dirTrail path).IsNormal := Trail.isNormal_ofText _

theorem names_ne_nil_of_lt {path : Text} {i : Nat} (h : i < reach path) :
    ((Path.dirTrail path).up i).names ≠ [] := by
  rw [Trail.names_up]
  intro hNil
  have hLength := congrArg List.length hNil
  rw [List.length_take, List.length_nil] at hLength
  unfold reach at h
  omega

theorem markedAt_eq_some_iff {view : View} {path : Text} {i : Nat} (h : i < reach path)
    {project : Project} : markedAt view ((Path.dirTrail path).up i) = some project ↔
      ∃ name, IsFirstMarker view (Path.ascent path i) name ∧
        project = { root := Path.ascent path i, marker := some name } := by
  rw [markedAt, Option.map_eq_some_iff, Path.ascent_eq]
  simp only [markerIn_eq_some_iff ((isNormal_dirTrail path).up i) (names_ne_nil_of_lt h),
    eq_comm (a := project)]

theorem markedAt_eq_none_iff {view : View} {path : Text} {i : Nat} (h : i < reach path) :
    markedAt view ((Path.dirTrail path).up i) = none ↔ ¬ IsMarked view (Path.ascent path i) := by
  rw [markedAt, Option.map_eq_none_iff, Path.ascent_eq,
    markerIn_eq_none_iff ((isNormal_dirTrail path).up i) (names_ne_nil_of_lt h)]

theorem locate_of_nearest {view : View} {path : Text} {i : Nat} {name : Text} (hi : i < reach path)
    (hFirst : IsFirstMarker view (Path.ascent path i) name)
    (hBelow : ∀ j, j < i → ¬ IsMarked view (Path.ascent path j)) :
    locate view path = { root := Path.ascent path i, marker := some name } := by
  apply locate_eq_of_marked
  rw [Trail.findSome?_chain_eq_some_iff]
  exact ⟨i, hi, (markedAt_eq_some_iff hi).2 ⟨name, hFirst, rfl⟩, fun j hj =>
    (markedAt_eq_none_iff (Nat.lt_trans hj hi)).2 (hBelow j hj)⟩

theorem locate_of_unmarked {view : View} {path : Text}
    (h : ∀ i, i < reach path → ¬ IsMarked view (Path.ascent path i)) :
    locate view path = { root := Path.ascent path 0, marker := none } := by
  apply locate_eq_of_unmarked
  rw [Trail.findSome?_chain_eq_none_iff]
  exact fun i hi => (markedAt_eq_none_iff hi).2 (h i hi)

/-- The search ends at the nearest marked directory, or there is none. -/
theorem locate_cases (view : View) (path : Text) :
    (∃ i name, i < reach path ∧ IsFirstMarker view (Path.ascent path i) name ∧
        ∀ j, j < i → ¬ IsMarked view (Path.ascent path j)) ∨
      ∀ i, i < reach path → ¬ IsMarked view (Path.ascent path i) := by
  cases hFind : (Path.dirTrail path).chain.findSome? (markedAt view) with
  | some project =>
      obtain ⟨i, hi, hMarked, hBelow⟩ := (Trail.findSome?_chain_eq_some_iff _ _ _).1 hFind
      obtain ⟨name, hFirst, -⟩ := (markedAt_eq_some_iff hi).1 hMarked
      exact Or.inl ⟨i, name, hi, hFirst, fun j hj =>
        (markedAt_eq_none_iff (Nat.lt_trans hj hi)).1 (hBelow j hj)⟩
  | none =>
      rw [Trail.findSome?_chain_eq_none_iff] at hFind
      exact Or.inr fun i hi => (markedAt_eq_none_iff hi).1 (hFind i hi)

/-! ## The directories on the way -/

theorem ascent_reach (path : Text) :
    Path.ascent path (reach path) = if Path.isRooted path then text "/" else text "." := by
  have hNames : ((Path.dirTrail path).up (reach path)).names = [] := by
    simp [Trail.names_up, reach]
  rw [Path.ascent_eq, ← Path.rooted_dirTrail, ← Trail.rooted_up _ (reach path)]
  generalize (Path.dirTrail path).up (reach path) = top at hNames
  cases hRooted : top.rooted with
  | true => simp only [Trail.toText, hRooted, hNames]; decide
  | false => simp only [Trail.toText, hRooted, hNames]; decide

/-- Before the end, no two directories on the way are the same. -/
theorem ascent_inj {path : Text} {i j : Nat} (hi : i < reach path)
    (h : Path.ascent path i = Path.ascent path j) : i = j := by
  have hNormal := isNormal_dirTrail path
  rw [Path.ascent_eq, Path.ascent_eq] at h
  have hSame : (Path.dirTrail path).up i = (Path.dirTrail path).up j := by
    rw [← Trail.ofText_toText (hNormal.up i), h, Trail.ofText_toText (hNormal.up j)]
  have hLength := congrArg (fun t => t.names.length) hSame
  simp only [Trail.names_up, List.length_take] at hLength
  unfold reach at hi
  omega

/-- The directories above a name in a directory are that directory and those
above it. -/
theorem dirTrail_ascent_append (path : Text) (i : Nat) {name : Text} (hName : Byte.slash ∉ name) :
    Path.dirTrail (Path.ascent path i ++ Byte.slash :: name) = (Path.dirTrail path).up i := by
  rw [Path.ascent_eq, Path.dirTrail_toText_append ((isNormal_dirTrail path).up i) hName]

theorem ascent_ascent_append (path : Text) (i j : Nat) {name : Text} (hName : Byte.slash ∉ name) :
    Path.ascent (Path.ascent path i ++ Byte.slash :: name) j = Path.ascent path (i + j) := by
  rw [Path.ascent_eq, dirTrail_ascent_append path i hName, Trail.up_up, ← Path.ascent_eq]

theorem reach_ascent_append (path : Text) (i : Nat) {name : Text} (hName : Byte.slash ∉ name) :
    reach (Path.ascent path i ++ Byte.slash :: name) = reach path - i := by
  rw [reach, dirTrail_ascent_append path i hName, Trail.names_up, List.length_take, reach]
  omega

/-- From between a file and the marked root of its project, the search ends at the
same root. -/
theorem locate_ascent_append {view : View} {path : Text} {i j : Nat} {name marker : Text}
    (hName : Byte.slash ∉ name) (hi : i ≤ j) (hj : j < reach path)
    (hFirst : IsFirstMarker view (Path.ascent path j) marker)
    (hBelow : ∀ k, k < j → ¬ IsMarked view (Path.ascent path k)) :
    locate view (Path.ascent path i ++ Byte.slash :: name) = locate view path := by
  have hIndex : i + (j - i) = j := by omega
  have hHere : j - i < reach (Path.ascent path i ++ Byte.slash :: name) := by
    rw [reach_ascent_append path i hName]
    omega
  have hSame : locate view (Path.ascent path i ++ Byte.slash :: name) =
      { root := Path.ascent path (i + (j - i)), marker := some marker } := by
    rw [← ascent_ascent_append path i (j - i) hName]
    apply locate_of_nearest hHere
    · rw [ascent_ascent_append path i (j - i) hName, hIndex]
      exact hFirst
    · intro k hk
      rw [ascent_ascent_append path i k hName]
      exact hBelow (i + k) (by omega)
  rw [hSame, hIndex, locate_of_nearest hj hFirst hBelow]

/-- The search does not depend on anything but the markers of the directories on
the way. -/
theorem locate_congr {view view' : View} {path : Text}
    (h : ∀ i, i < reach path → ∀ name ∈ [text "pyproject.toml", text ".git", text ".vscode"],
      (Holds view (Path.ascent path i) name ↔ Holds view' (Path.ascent path i) name)) :
    locate view path = locate view' path := by
  have hMarked : ∀ i, i < reach path →
      ¬ IsMarked view (Path.ascent path i) → ¬ IsMarked view' (Path.ascent path i) := by
    rintro i hi hNone ⟨name, hName, hHolds⟩
    exact hNone ⟨name, hName, (h i hi name hName).2 hHolds⟩
  rcases locate_cases view path with ⟨i, name, hi, hFirst, hBelow⟩ | hUnmarked
  · rw [locate_of_nearest hi hFirst hBelow]
    obtain ⟨before, after, hMarkers, hHolds, hBefore⟩ := hFirst
    have hMem : ∀ other ∈ before ++ name :: after,
        other ∈ [text "pyproject.toml", text ".git", text ".vscode"] := fun other hOther =>
      hMarkers ▸ hOther
    have hFirst' : IsFirstMarker view' (Path.ascent path i) name := by
      refine ⟨before, after, hMarkers, (h i hi name (hMem name (by simp))).1 hHolds,
        fun other hOther hThere => ?_⟩
      exact hBefore other hOther ((h i hi other (hMem other (by simp [hOther]))).2 hThere)
    rw [locate_of_nearest hi hFirst' fun j hj => hMarked j (Nat.lt_trans hj hi) (hBelow j hj)]
  · rw [locate_of_unmarked hUnmarked, locate_of_unmarked fun i hi => hMarked i hi (hUnmarked i hi)]

/-- The project of a path, on every disk. Going up from the directory of the path
ends, after some number of steps, at a directory that is its own parent: at `/`
for a rooted path. Of the directories before that end the nearest one that holds a
marker is the root, with the first marker it holds; the last directory is not
looked at, and if none of the others is marked the root is the directory of the
path. A marked root is also found from every name without a slash in the directories
between the path and the root. -/
theorem locate_nearest_marked (view : View) (path : Text) :
    ∃ k, (Path.ascent path k = if Path.isRooted path then text "/" else text ".") ∧
      Path.dir (Path.ascent path k) = Path.ascent path k ∧
      (∀ i, i < k → Path.dir (Path.ascent path i) ≠ Path.ascent path i) ∧
      (∀ i, i < k → IsMarked view (Path.ascent path i) →
        (∀ j, j < i → ¬ IsMarked view (Path.ascent path j)) →
          ∃ name, IsFirstMarker view (Path.ascent path i) name ∧
            locate view path = { root := Path.ascent path i, marker := some name }) ∧
      ((∀ i, i < k → ¬ IsMarked view (Path.ascent path i)) →
        locate view path = { root := Path.dir path, marker := none }) ∧
      (∀ view', (∀ i, i < k → ∀ name ∈ [text "pyproject.toml", text ".git", text ".vscode"],
          (Holds view (Path.ascent path i) name ↔ Holds view' (Path.ascent path i) name)) →
        locate view path = locate view' path) ∧
      ∀ i j name, (locate view path).marker ≠ none → Path.ascent path j = (locate view path).root →
        i ≤ j → Byte.slash ∉ name →
          locate view (Path.ascent path i ++ Byte.slash :: name) = locate view path := by
  refine ⟨reach path, ascent_reach path, ?_, ?_, ?_, locate_of_unmarked, fun view' => locate_congr,
    ?_⟩
  · rw [ascent_reach path]
    cases Path.isRooted path <;> decide
  · intro i hi hSame
    have hNext := ascent_inj (j := i + 1) hi hSame.symm
    omega
  · intro i hi hMarked hBelow
    rcases locate_cases view path with ⟨j, name, hj, hFirst, hNearest⟩ | hUnmarked
    · have hNotBefore : ¬ j < i := fun hLt => hBelow j hLt hFirst.isMarked
      have hNotAfter : ¬ i < j := fun hLt => hNearest i hLt hMarked
      obtain rfl : i = j := by omega
      exact ⟨name, hFirst, locate_of_nearest hi hFirst hNearest⟩
    · exact absurd hMarked (hUnmarked i hi)
  · intro i j name hMarker hRoot hBetween hSlash
    rcases locate_cases view path with ⟨k, marker, hk, hFirst, hNearest⟩ | hUnmarked
    · have hProject := locate_of_nearest hk hFirst hNearest
      obtain rfl : k = j := ascent_inj hk (by rw [hRoot, hProject])
      exact locate_ascent_append hSlash hBetween hk hFirst hNearest
    · rw [locate_of_unmarked hUnmarked] at hMarker
      exact absurd rfl hMarker

end Project

end DottedNames
