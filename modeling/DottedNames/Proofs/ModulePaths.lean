import DottedNames.Proofs.ProjectRoots

/-!
# What a module path is made of

The module path of a file comes out of three steps on texts: the root of the
project is found by going up, the path from the root to the file is worked out
name by name, and the result loses its ending and has its separators replaced.
On the names of the paths these are one step. The root of a rooted file has the
first names of the file's directory, so the way from the root to the file leads
down by the names that are left, the last of which is the file's own. The module
path is those names with dots between them.

Texts that are not in normal form, a name that begins with dots and a name that
has a backslash in it are all covered: only the ending of a source file is
asked for.

## Main results

* `Path.relative?_of_names` — the way down from a directory is what its names
  leave of the other's.
* `modulePath_eq_join` — names without dots and separators are dotted as they
  are.
* `modulePathOf_is_dotted` — the module path of every rooted source file, and
  which files have the same one.
-/

namespace DottedNames

namespace Text

/-- What ends the last part ends the joined text. -/
theorem join_concat_append (sep : Text) (parts : List Text) (last ending : Text) :
    join sep (parts ++ [last ++ ending]) = join sep (parts ++ [last]) ++ ending := by
  by_cases hParts : parts = []
  · subst hParts
    rfl
  · rw [join_concat sep hParts, join_concat sep hParts, List.append_assoc _ last]

theorem map_join (f : UInt8 → UInt8) (sep : Text) (parts : List Text) :
    (join sep parts).map f = join (sep.map f) (parts.map (List.map f)) := by
  induction parts with
  | nil => rfl
  | cons part parts ih =>
      cases parts with
      | nil => rfl
      | cons next parts =>
          have hRest : next :: parts ≠ [] := by simp
          have hMapped : (next :: parts).map (List.map f) ≠ [] := by simp
          rw [join_cons _ _ hRest, List.map_append, List.map_append, ih,
            List.map_cons (l := next :: parts), join_cons _ _ hMapped]

end Text

/-! ## The way down from a directory -/

theorem Trail.between_append (base rest : List Text) :
    Trail.between base (base ++ rest) = some rest := by
  induction base with
  | nil => cases rest <;> simp [Trail.between, Trail.climb]
  | cons name base ih => rw [List.cons_append, Trail.between, if_pos rfl, ih]

namespace Path

theorem clean_join {names : List Text} (hNames : names ≠ []) (h : ∀ n ∈ names, IsName n) :
    clean (Text.join [Byte.slash] names) = Text.join [Byte.slash] names := by
  have hText : Trail.toText { rooted := false, names } = Text.join [Byte.slash] names := by
    simp [Trail.toText]
  rw [← hText, clean, Trail.ofText_toText (Trail.isNormal_of_names false h)]

/-- A path that goes on from a directory by some names is reached by them. -/
theorem relative?_of_names {base target : Text} {below : List Text} (hBelow : below ≠ [])
    (hNames : ∀ n ∈ below, IsName n)
    (h : Trail.ofText target =
      { Trail.ofText base with names := (Trail.ofText base).names ++ below }) :
    relative? base target = some (Text.join [Byte.slash] below) := by
  unfold relative?
  rw [h]
  simp only [bne_self_eq_false, Bool.false_eq_true, if_false, Trail.between_append, Option.map_some,
    clean_join hBelow hNames]

theorem ofText_eq_of_clean {a b : Text} (h : clean a = clean b) :
    Trail.ofText a = Trail.ofText b := by
  rw [← Trail.ofText_toText (Trail.isNormal_ofText a),
    ← Trail.ofText_toText (Trail.isNormal_ofText b)]
  exact congrArg Trail.ofText h

/-- A path goes on from its directory by its last name. -/
theorem ofText_eq_dirTrail_concat (front : Text) {name : Text} (h : IsName name) :
    Trail.ofText (front ++ Byte.slash :: name) =
      { dirTrail (front ++ Byte.slash :: name) with
        names := (dirTrail (front ++ Byte.slash :: name)).names ++ [name] } := by
  have hHead : (front ++ Byte.slash :: name).head? = (front ++ [Byte.slash]).head? := by
    cases front <;> rfl
  rw [dirTrail_append h.no_slash]
  simp only [Trail.ofText, hHead]
  rw [Text.splitOn_append, Text.splitOn_append, Text.splitOn_of_not_mem h.no_slash,
    List.foldl_append, List.foldl_append]
  simp [Text.splitOn, Trail.advance_nil, Trail.advance_name h]

theorem isName_append_python (stem : Text) (h : Byte.slash ∉ stem) :
    IsName (stem ++ pythonSuffix) := by
  have hLength : 3 ≤ (stem ++ pythonSuffix).length := by
    rw [List.length_append]
    exact Nat.le_add_left 3 stem.length
  have hLong : ∀ short : Text, short.length < 3 → stem ++ pythonSuffix ≠ short := by
    intro short hShort hEq
    rw [hEq] at hLength
    omega
  refine ⟨hLong _ (by decide), hLong _ (by decide), hLong _ (by decide), ?_⟩
  rw [List.mem_append, not_or]
  exact ⟨h, by decide⟩

/-- The last name of a source file has the ending too. -/
theorem exists_stem {path : Text} (hRooted : isRooted path = true)
    (hPython : pythonSuffix <:+ path) :
    ∃ front stem, path = front ++ Byte.slash :: (stem ++ pythonSuffix) ∧ Byte.slash ∉ stem := by
  have hSlash : Byte.slash ∈ path := List.mem_of_head? (by simpa [isRooted] using hRooted)
  obtain ⟨front, name, rfl, hName⟩ := exists_last_slash hSlash
  obtain ⟨before, hBefore⟩ := hPython
  have hNoSlash : Byte.slash ∉ pythonSuffix := by decide
  -- the ending has no slash, so it begins after the last one
  rcases List.append_eq_append_iff.1 hBefore with ⟨rest, -, hRest⟩ | ⟨rest, -, hRest⟩
  · exact absurd (hRest ▸ List.mem_append_right rest List.mem_cons_self) hNoSlash
  · cases rest with
    | nil =>
        rw [List.nil_append] at hRest
        exact absurd (hRest ▸ List.mem_cons_self) hNoSlash
    | cons b rest =>
        rw [List.cons_append, List.cons.injEq] at hRest
        refine ⟨front, rest, by rw [hRest.2], fun hMem => hName ?_⟩
        rw [hRest.2]
        exact List.mem_append_left _ hMem

end Path

namespace Project

/-! ## From names to a module path -/

/-- Replaces backslashes by dots. -/
def undoBackslash (b : UInt8) : UInt8 := if b = Byte.backslash then Byte.dot else b

/-- Slashes between the names become dots, and so do backslashes inside them. -/
theorem modulePath_of_relative {root path : Text} {between : List Text} {stem : Text}
    (h : Path.relative? root path =
      some (Text.join [Byte.slash] (between ++ [stem ++ Path.pythonSuffix])))
    (hSlash : ∀ n ∈ between ++ [stem], Byte.slash ∉ n) :
    modulePath root path = (Text.join [Byte.dot] (between ++ [stem])).map undoBackslash := by
  have hName : ∀ n ∈ between ++ [stem],
      n.map (fun b => if b = Byte.slash ∨ b = Byte.backslash then Byte.dot else b) =
        n.map undoBackslash := by
    intro n hn
    apply List.map_congr_left
    intro b hb
    have hOther : b ≠ Byte.slash := fun hEq => hSlash n hn (hEq ▸ hb)
    simp [undoBackslash, hOther]
  simp only [modulePath]
  rw [h, Option.getD_some, Text.join_concat_append, Text.trimSuffix_append, Text.map_join,
    Text.map_join]
  congr 1
  exact List.map_congr_left hName

/-- A name that an import can use: not empty, without dots and separators. -/
structure IsModuleName (name : Text) : Prop where
  ne_nil : name ≠ []
  no_dot : Byte.dot ∉ name
  no_slash : Byte.slash ∉ name
  no_backslash : Byte.backslash ∉ name

theorem IsModuleName.isName {name : Text} (h : IsModuleName name) : IsName name :=
  ⟨h.ne_nil, fun hHere => h.no_dot (hHere ▸ by decide),
    fun hAbove => h.no_dot (hAbove ▸ by decide), h.no_slash⟩

/-- The source file that is reached from a directory by some names. -/
def fileBelow (root : Text) (names : List Text) : Text :=
  root ++ text "/" ++ Text.join (text "/") names ++ text ".py"

/-- Below any directory, names without dots and separators make the module path as
they are, however the path of the file is spelt. -/
theorem modulePath_eq_join {root path : Text} (hRoot : root ≠ []) {names : List Text}
    (hNames : names ≠ []) (h : ∀ n ∈ names, IsModuleName n)
    (hPath : Path.clean path = Path.clean (fileBelow root names)) :
    modulePath root path = Text.join [Byte.dot] names := by
  obtain ⟨between, stem, rfl⟩ := List.eq_nil_or_concat names |>.resolve_left hNames
  rw [List.concat_eq_append] at h hPath ⊢
  have hStem := h stem (by simp)
  have hBelow : ∀ n ∈ between ++ [stem ++ Path.pythonSuffix], IsName n := by
    intro n hn
    rcases List.mem_append.1 hn with hFront | hLast
    · exact (h n (by simp [hFront])).isName
    · rw [List.mem_singleton.1 hLast]
      exact Path.isName_append_python stem hStem.no_slash
  have hFile : fileBelow root (between ++ [stem]) =
      root ++ Byte.slash :: Text.join [Byte.slash] (between ++ [stem ++ Path.pythonSuffix]) := by
    have hSlash : text "/" = [Byte.slash] := by decide
    rw [Text.join_concat_append]
    simp [fileBelow, Path.pythonSuffix, hSlash]
  have hFull : between ++ [stem ++ Path.pythonSuffix] ≠ [] := by simp
  have hTrail := Trail.ofText_append_names hRoot hFull hBelow
  rw [← hFile, ← Path.ofText_eq_of_clean hPath] at hTrail
  have hRelative := Path.relative?_of_names hFull hBelow hTrail
  rw [modulePath_of_relative hRelative fun n hn => (h n hn).no_slash, Text.map_join]
  have hSame : ∀ n ∈ between ++ [stem], n.map undoBackslash = n := by
    intro n hn
    have hKeep : ∀ b ∈ n, undoBackslash b = b := by
      intro b hb
      have hOther : b ≠ Byte.backslash := fun hEq => (h n hn).no_backslash (hEq ▸ hb)
      exact if_neg hOther
    exact (List.map_congr_left hKeep).trans (List.map_id n)
  rw [(List.map_congr_left hSame).trans (List.map_id' _)]
  rfl

/-! ## The root of a file -/

/-- The root of a project is one of the directories above the file. -/
theorem exists_root_eq (view : View) (path : Text) :
    ∃ i, (locate view path).root = Path.ascent path i := by
  rcases locate_cases view path with ⟨i, name, hi, hFirst, hBelow⟩ | hUnmarked
  · exact ⟨i, by rw [locate_of_nearest hi hFirst hBelow]⟩
  · exact ⟨0, by rw [locate_of_unmarked hUnmarked]⟩

/-- The names of the root are the first of those of the file's directory. -/
theorem exists_root_names (view : View) {path : Text} (hRooted : Path.isRooted path = true) :
    ∃ top between, Path.dirTrail path = { rooted := true, names := top ++ between } ∧
      (locate view path).root = Path.ofNames top := by
  obtain ⟨i, hRoot⟩ := exists_root_eq view path
  have hStart := Path.rooted_dirTrail path
  rw [hRooted] at hStart
  refine ⟨((Path.dirTrail path).up i).names,
    (Path.dirTrail path).names.drop ((Path.dirTrail path).names.length - i), ?_, ?_⟩
  · rw [Trail.names_up, List.take_append_drop, ← hStart]
  · rw [hRoot, Path.ascent_eq, Path.ofNames, ← hStart, ← Trail.rooted_up _ i]

/-- The names that a file and the root of its project are made of, and the module
path they make. -/
structure IsDotted (view : View) (path : Text) (top between : List Text) (name dotted : Text) :
    Prop where
  names : ∀ n ∈ top ++ between ++ [name], IsName n
  root : (locate view path).root = Path.ofNames top
  dir : Path.dir path = Path.ofNames (top ++ between)
  clean : Path.clean path = Path.ofNames (top ++ between ++ [name])
  /-- The way from the root to the file exists, and these are all its names. -/
  relative : ∃ way, Path.relative? (locate view path).root path = some way ∧
    Text.splitOn Byte.slash way = between ++ [name]
  dots : Text.join (text ".") (between ++ [name]) = dotted ++ text ".py"
  value : modulePathOf view path = dotted.map undoBackslash

theorem exists_isDotted (view : View) {path : Text} (hRooted : Path.isRooted path = true)
    (hPython : text ".py" <:+ path) :
    ∃ top between name dotted, IsDotted view path top between name dotted := by
  obtain ⟨front, stem, hPath, hStem⟩ := Path.exists_stem hRooted hPython
  obtain ⟨top, between, hDir, hRoot⟩ := exists_root_names view hRooted
  have hFile : Trail.ofText path =
      { rooted := true, names := top ++ between ++ [stem ++ Path.pythonSuffix] } := by
    have hConcat := Path.ofText_eq_dirTrail_concat front (Path.isName_append_python stem hStem)
    rw [← hPath, hDir] at hConcat
    exact hConcat
  have hAll : ∀ n ∈ top ++ between ++ [stem ++ Path.pythonSuffix], IsName n := by
    have hProper := Path.isName_of_mem_names hRooted
    rw [Path.names, hFile] at hProper
    exact hProper
  have hBelow : ∀ n ∈ between ++ [stem ++ Path.pythonSuffix], IsName n := fun n hn =>
    hAll n (by rw [List.append_assoc]; exact List.mem_append_right top hn)
  have hWay : Path.relative? (locate view path).root path =
      some (Text.join [Byte.slash] (between ++ [stem ++ Path.pythonSuffix])) := by
    apply Path.relative?_of_names (by simp) hBelow
    have hRootNames : ∀ n ∈ top, IsName n := fun n hn => hAll n (by simp [hn])
    rw [hRoot, Path.ofText_ofNames hRootNames, hFile, List.append_assoc]
  refine ⟨top, between, stem ++ text ".py", Text.join (text ".") (between ++ [stem]), hAll,
    hRoot, ?_, ?_, ⟨_, hWay, ?_⟩, Text.join_concat_append _ _ _ _, ?_⟩
  · rw [Path.dir, hDir, Path.ofNames]
  · rw [Path.clean, hFile, Path.ofNames]
    rfl
  · exact Text.splitOn_join _ (by simp) fun n hn => (hBelow n hn).no_slash
  · apply modulePath_of_relative hWay
    intro n hn
    rcases List.mem_append.1 hn with hFront | hLast
    · exact (hBelow n (by simp [hFront])).no_slash
    · rw [List.mem_singleton.1 hLast]
      exact hStem

/-- The module path of a rooted source file. The names of the root are the first
names of the file's directory, and the file lies below it: the way from the root
to the file exists and goes down only, by the names that are left of the file's
normal form. The module path is these names with dots between them, without the
one ending `.py` and with dots for backslashes. Names that have no dots and no
separators are the module path as they are, below any root and however the path is
spelt, and no other such names give it. -/
theorem modulePathOf_is_dotted :
    (∀ (view : View) (path : Text), Path.isRooted path = true → text ".py" <:+ path →
      ∃ top between name dotted, IsDotted view path top between name dotted) ∧
      ∀ root, Path.isRooted root = true →
        (∀ names path, names ≠ [] → (∀ n ∈ names, IsModuleName n) →
          Path.clean path = Path.clean (fileBelow root names) →
            modulePath root path = Text.join (text ".") names) ∧
        ∀ names names', names ≠ [] → names' ≠ [] → (∀ n ∈ names ++ names', IsModuleName n) →
          modulePath root (fileBelow root names) = modulePath root (fileBelow root names') →
            names = names' := by
  refine ⟨fun view path => exists_isDotted view, fun root hRooted => ?_⟩
  have hNonempty : root ≠ [] := by
    rintro rfl
    exact absurd hRooted (by decide)
  have hDot : text "." = [Byte.dot] := by decide
  rw [hDot]
  refine ⟨fun names path hNames h hPath => modulePath_eq_join hNonempty hNames h hPath,
    fun names names' hNames hNames' h hSame => ?_⟩
  have hFirst : ∀ n ∈ names, IsModuleName n := fun n hn => h n (by simp [hn])
  have hSecond : ∀ n ∈ names', IsModuleName n := fun n hn => h n (by simp [hn])
  rw [modulePath_eq_join hNonempty hNames hFirst rfl,
    modulePath_eq_join hNonempty hNames' hSecond rfl] at hSame
  rw [← Text.splitOn_join Byte.dot hNames fun n hn => (hFirst n hn).no_dot, hSame,
    Text.splitOn_join Byte.dot hNames' fun n hn => (hSecond n hn).no_dot]

theorem modulePathOf_is_dotted_unclean :
    (∃ top between name dotted,
      IsDotted { disk := {}, current := text "/" } (text "//w/./a/../..py") top between name
        dotted) ∧
      modulePath (text "/") (text "/a/./b.py") = text "a.b" := by
  have hNames : ∀ n ∈ [text "a", text "b"], IsModuleName n := by
    intro n hn
    constructor <;> revert n <;> decide
  exact ⟨modulePathOf_is_dotted.1 _ _ (by decide) (by decide),
    (modulePathOf_is_dotted.2 (text "/") (by decide)).1 _ _ (by decide) hNames (by decide)⟩

end Project

end DottedNames
