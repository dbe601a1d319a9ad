import DottedNames.Proofs.ModulePaths
import DottedNames.Source.Outline

/-!
# Files without a module path

The module path of a source file is what leads from the root of its project down to the
file, without the ending of a source file. A file in a directory below the root always
has one, for the names of these directories come first. A file that lies in the root
itself has its own name only, and what is left of it is empty when the name is the
ending and nothing else. Such a name passes for a Python file, since the ending of a
name goes from its last dot on, wherever that stands.

A file lies in the root of its project when its directory holds a marker, and also when
no directory on the way up does, as the directory stands in for the root then.

## Main results

* `locate_root_eq_dir_iff` — which files lie in the root of their project.
* `modulePathOf_eq_nil_iff` — which source files have an empty module path.
* `elements_lack_module_iff` — the same of the element at every line.
-/

namespace DottedNames

/-- Names that are joined by dots come to a bare ending only as that one name. -/
theorem Text.join_eq_pythonSuffix_iff {between : List Text} {name : Text}
    (h : ∀ n ∈ between, n ≠ []) :
    Text.join [Byte.dot] (between ++ [name]) = Path.pythonSuffix ↔
      between = [] ∧ name = Path.pythonSuffix := by
  cases between with
  | nil => simp [Text.join]
  | cons first between =>
      have hSuffix : Path.pythonSuffix = [Byte.dot, 0x70, 0x79] := by decide
      simp only [reduceCtorEq, false_and, iff_false]
      intro hJoin
      cases first with
      | nil => exact h [] (by simp) rfl
      | cons b first =>
          -- the first name takes the dot of the ending, and its own comes later
          rw [List.cons_append, Text.join_cons _ _ (by simp), hSuffix, List.cons_append,
            List.cons_append, List.cons.injEq] at hJoin
          have hDot : Byte.dot ∈ ([0x70, 0x79] : Text) := by simp [← hJoin.2]
          exact absurd hDot (by decide)

/-- The last name of a source file is that of its normal form. -/
theorem Path.base_of_python {path : Text} (hRooted : Path.isRooted path = true)
    (hPython : Path.pythonSuffix <:+ path) {names : List Text} {name : Text}
    (hNames : ∀ n ∈ names ++ [name], IsName n)
    (hClean : Path.clean path = Path.ofNames (names ++ [name])) : Path.base path = name := by
  obtain ⟨front, stem, rfl, hStem⟩ := Path.exists_stem hRooted hPython
  have hLast : IsName (stem ++ Path.pythonSuffix) := Path.isName_append_python stem hStem
  have hText : Trail.ofText (front ++ Byte.slash :: (stem ++ Path.pythonSuffix)) =
      Trail.ofText (Path.ofNames (names ++ [name])) := by
    rw [← hClean, Path.clean, Trail.ofText_toText (Trail.isNormal_ofText _)]
  have hSame := congrArg Trail.names hText
  rw [Path.ofText_eq_dirTrail_concat front hLast, Path.ofText_ofNames hNames] at hSame
  rw [Path.base_append front hLast]
  exact List.singleton_inj.1 (List.append_inj_right' hSame rfl)

namespace Project

/-! ## Files in the root -/

/-- The way up from a rooted path ends at the topmost directory. -/
theorem ascent_eq_top_iff {path : Text} (hRooted : Path.isRooted path = true) (i : Nat) :
    Path.ascent path i = text "/" ↔ reach path ≤ i := by
  have hTop : Path.ascent path (reach path) = text "/" := by rw [ascent_reach, if_pos hRooted]
  constructor
  · intro hHere
    refine Nat.le_of_not_lt fun hBefore => ?_
    have hSame := ascent_inj hBefore (hHere.trans hTop.symm)
    omega
  · intro hBeyond
    obtain ⟨more, rfl⟩ := Nat.exists_eq_add_of_le hBeyond
    induction more with
    | zero => exact hTop
    | succ more ih =>
        rw [← Nat.add_assoc, Path.ascent, ih (Nat.le_add_right _ _)]
        decide

/-- A rooted file lies in the root of its project when its directory is marked, and when
none is, the topmost one apart. -/
theorem locate_root_eq_dir_iff (view : View) {path : Text} (hRooted : Path.isRooted path = true) :
    (locate view path).root = Path.dir path ↔
      IsMarked view (Path.dir path) ∨
        ∀ i, Path.ascent path i ≠ text "/" → ¬ IsMarked view (Path.ascent path i) := by
  have hDir : Path.dir path = Path.ascent path 0 := rfl
  rw [hDir]
  rcases locate_cases view path with ⟨i, name, hi, hFirst, hBelow⟩ | hUnmarked
  · rw [locate_of_nearest hi hFirst hBelow]
    constructor
    · intro hSame
      obtain rfl : i = 0 := ascent_inj hi hSame
      exact Or.inl hFirst.isMarked
    · rintro (hMarked | hNone)
      · obtain rfl : i = 0 := Nat.eq_zero_of_not_pos fun hLater => hBelow 0 hLater hMarked
        rfl
      · have hInside : Path.ascent path i ≠ text "/" := by
          rw [Ne, ascent_eq_top_iff hRooted]
          omega
        exact absurd hFirst.isMarked (hNone i hInside)
  · rw [locate_of_unmarked hUnmarked]
    refine ⟨fun _ => Or.inr fun i hInside => hUnmarked i ?_, fun _ => rfl⟩
    rw [Ne, ascent_eq_top_iff hRooted] at hInside
    omega

/-! ## Empty module paths -/

/-- A rooted source file has an empty module path exactly when its name is the bare
ending and it lies in the root of its project. -/
theorem modulePathOf_eq_nil_iff (view : View) {path : Text} (hRooted : Path.isRooted path = true)
    (hPython : Path.isPython path = true) :
    modulePathOf view path = [] ↔
      Path.base path = text ".py" ∧ (locate view path).root = Path.dir path := by
  have hSuffix : text ".py" <:+ path := List.isSuffixOf_iff_suffix.1 hPython
  obtain ⟨top, between, name, dotted, h⟩ := exists_isDotted view hRooted hSuffix
  have hBetween : ∀ n ∈ between, n ≠ [] := fun n hn => (h.names n (by simp [hn])).ne_nil
  have hEmpty : modulePathOf view path = [] ↔ between = [] ∧ name = text ".py" := by
    have hDot : text "." = [Byte.dot] := by decide
    have hDots := h.dots
    rw [hDot] at hDots
    have hBare : dotted = [] ↔ dotted ++ text ".py" = text ".py" :=
      List.append_left_eq_self.symm
    rw [h.value, List.map_eq_nil_iff, hBare, ← hDots]
    exact Text.join_eq_pythonSuffix_iff hBetween
  have hBase : Path.base path = name := Path.base_of_python hRooted hSuffix h.names h.clean
  have hRoot : (locate view path).root = Path.dir path ↔ between = [] := by
    rw [h.root, h.dir]
    constructor
    · intro hSame
      have hDirNames : ∀ n ∈ top ++ between, IsName n := fun n hn =>
        h.names n (List.mem_append_left _ hn)
      have hTop := Path.ofNames_inj (fun n hn => hDirNames n (List.mem_append_left _ hn))
        hDirNames hSame
      simpa using hTop.symm
    · rintro rfl
      rw [List.append_nil]
  rw [hEmpty, hBase, hRoot, and_comm]

/-- The element at any line of a rooted source file has the module path of the file, and
that is empty exactly when the file is named by the bare ending and lies in the root of
its project: when its directory holds a marker, or no directory on the way up does, the
topmost one apart. -/
theorem elements_lack_module_iff (view : View) {path : Text}
    (hRooted : Path.isRooted path = true) (hPython : Path.isPython path = true) (doc : Document)
    (index : Int64) :
    (Document.elementAt view doc index path).modulePath = modulePathOf view path ∧
      (modulePathOf view path = [] ↔
        Path.base path = text ".py" ∧ (locate view path).root = Path.dir path) ∧
      ((locate view path).root = Path.dir path ↔
        IsMarked view (Path.dir path) ∨
          ∀ i, Path.ascent path i ≠ text "/" → ¬ IsMarked view (Path.ascent path i)) :=
  ⟨rfl, modulePathOf_eq_nil_iff view hRooted hPython, locate_root_eq_dir_iff view hRooted⟩

/-- A directory with a marker and a directory below it. -/
def markedView : View :=
  { disk := { entries := [([text "w"], .directory), ([text "w", text ".git"], .directory),
      ([text "w", text "sub"], .directory)] } }

/-- Below the root even a file that is named by the bare ending has a module path. -/
theorem bare_ending_below_root :
    Path.isRooted (text "/w/sub/.py") = true ∧ Path.isPython (text "/w/sub/.py") = true ∧
      (Document.elementAt markedView [] 0 (text "/w/sub/.py")).modulePath = text "sub." ∧
        (locate markedView (text "/w/sub/.py")).root ≠ Path.dir (text "/w/sub/.py") := by
  have hRooted : Path.isRooted (text "/w/sub/.py") = true := by decide
  have hPython : Path.isPython (text "/w/sub/.py") = true := by decide
  have hValue : modulePathOf markedView (text "/w/sub/.py") = text "sub." := by decide +kernel
  obtain ⟨hModule, hEmpty, -⟩ := elements_lack_module_iff markedView hRooted hPython [] 0
  refine ⟨hRooted, hPython, hModule.trans hValue, fun hSame => ?_⟩
  have hNone := hEmpty.2 ⟨by decide, hSame⟩
  exact absurd (hValue.symm.trans hNone) (by decide)

/-- In the root a file that is named by the bare ending has an empty module path, and
what is defined in it has a qualified path that begins with a dot. -/
theorem bare_ending_in_root :
    let path := text "/w/.py"
    let element := Document.elementAt {} [text "class K:"] 0 path
    Path.isRooted path = true ∧ Path.clean path = path ∧ Path.isPython path = true ∧
      modulePathOf {} path = [] ∧ element.modulePath = [] ∧ element.qualifiedPath = text ".K" := by
  decide +kernel

end Project

end DottedNames
