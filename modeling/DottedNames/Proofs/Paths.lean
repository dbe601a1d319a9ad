import DottedNames.Path.Basic
import DottedNames.Text.Lines

/-!
# Rooted paths and their names

A rooted path in normal form and the list of its names are the same thing
twice. `Path.ofNames` writes the names down, and `Trail.ofText` reads them back,
so that facts about paths can be proved on lists of names: extending a path by
a name is appending, and one path lies below another when its names extend the
other's.

## Main results

* `ofText_ofNames`, `ofNames_of_clean` — writing names down and reading them
  back, in both orders.
* `join_ofNames`, `base_ofNames` — the path of a name inside a directory.
* `ofNames_prefix_iff` — what lies inside a directory, by text and by names.
-/

namespace DottedNames

/-- A name that an entry of a directory can have. -/
structure IsName (name : Text) : Prop where
  ne_nil : name ≠ []
  ne_here : name ≠ Trail.here
  ne_above : name ≠ Trail.above
  no_slash : Byte.slash ∉ name

instance (name : Text) : Decidable (IsName name) :=
  decidable_of_iff (name ≠ [] ∧ name ≠ Trail.here ∧ name ≠ Trail.above ∧ Byte.slash ∉ name)
    ⟨fun ⟨hNil, hHere, hAbove, hSlash⟩ => ⟨hNil, hHere, hAbove, hSlash⟩,
      fun h => ⟨h.ne_nil, h.ne_here, h.ne_above, h.no_slash⟩⟩

namespace Path

/-- The names of a path in normal form. -/
def names (path : Text) : List Text := (Trail.ofText path).names

/-- The rooted path with given names. -/
def ofNames (names : List Text) : Text := Trail.toText { rooted := true, names }

theorem ofNames_eq (names : List Text) :
    ofNames names = Byte.slash :: Text.join [Byte.slash] names := rfl

end Path

/-! ## Reading names back -/

namespace Trail

theorem advance_name {name : Text} (h : IsName name) (rooted : Bool) (walked : List Text) :
    advance rooted walked name = name :: walked := by
  have hPlain : ¬ (name = [] ∨ name = here) := fun hEither =>
    hEither.elim h.ne_nil h.ne_here
  unfold advance
  rw [if_neg hPlain, if_neg h.ne_above]

theorem advance_nil (rooted : Bool) (walked : List Text) : advance rooted walked [] = walked := by
  simp [advance]

theorem foldl_advance_names {names : List Text} (h : ∀ name ∈ names, IsName name) (rooted : Bool)
    (walked : List Text) : names.foldl (advance rooted) walked = names.reverse ++ walked := by
  induction names generalizing walked with
  | nil => rfl
  | cons name names ih =>
      rw [List.foldl_cons, advance_name (h name (by simp)), ih fun n hn => h n (by simp [hn])]
      simp

/-- Below the root only proper names are ever kept. -/
theorem isName_of_advance {walked : List Text} {name : Text} (hName : Byte.slash ∉ name)
    (h : ∀ n ∈ walked, IsName n) : ∀ n ∈ advance true walked name, IsName n := by
  unfold advance
  split
  · exact h
  · next hPlain =>
      rw [not_or] at hPlain
      split
      · cases walked with
        | nil => simp
        | cons last before =>
            have hLast := (h last (by simp)).ne_above
            simp only [if_neg hLast]
            exact fun n hn => h n (by simp [hn])
      · next hAbove =>
          intro n hn
          cases List.mem_cons.1 hn with
          | inl hHead => exact hHead ▸ ⟨hPlain.1, hPlain.2, hAbove, hName⟩
          | inr hTail => exact h n hTail

theorem isName_of_foldl_advance {parts walked : List Text}
    (hParts : ∀ part ∈ parts, Byte.slash ∉ part) (h : ∀ n ∈ walked, IsName n) :
    ∀ n ∈ parts.foldl (advance true) walked, IsName n := by
  induction parts generalizing walked with
  | nil => exact h
  | cons part parts ih =>
      exact ih (fun p hp => hParts p (by simp [hp]))
        (isName_of_advance (hParts part (by simp)) h)

end Trail

namespace Path

theorem isRooted_ofNames (names : List Text) : isRooted (ofNames names) = true := by
  simp [isRooted, ofNames_eq]

/-- The names come after an empty part, the one before the first slash. -/
theorem splitOn_ofNames {names : List Text} (hNames : names ≠ [])
    (h : ∀ name ∈ names, IsName name) : Text.splitOn Byte.slash (ofNames names) = [] :: names := by
  rw [ofNames_eq, Text.splitOn, if_pos rfl,
    Text.splitOn_join _ hNames fun name hn => (h name hn).no_slash]

theorem foldl_advance_ofNames {names : List Text} (h : ∀ name ∈ names, IsName name)
    (rooted : Bool) (walked : List Text) :
    (Text.splitOn Byte.slash (ofNames names)).foldl (Trail.advance rooted) walked =
      names.reverse ++ walked := by
  by_cases hNames : names = []
  · subst hNames
    simp [ofNames_eq, Text.join, Text.splitOn, Trail.advance_nil]
  · rw [splitOn_ofNames hNames h, List.foldl_cons, Trail.advance_nil, Trail.foldl_advance_names h]

/-- Names that are written down are read back. -/
theorem ofText_ofNames {names : List Text} (h : ∀ name ∈ names, IsName name) :
    Trail.ofText (ofNames names) = { rooted := true, names } := by
  have hRooted : ((ofNames names).head? == some Byte.slash) = true := isRooted_ofNames names
  simp [Trail.ofText, hRooted, foldl_advance_ofNames h]

theorem names_ofNames {names : List Text} (h : ∀ name ∈ names, IsName name) :
    Path.names (ofNames names) = names := by
  rw [Path.names, ofText_ofNames h]

theorem clean_ofNames {names : List Text} (h : ∀ name ∈ names, IsName name) :
    clean (ofNames names) = ofNames names := by
  rw [clean, ofText_ofNames h, ofNames]

theorem ofNames_inj {a b : List Text} (ha : ∀ name ∈ a, IsName name)
    (hb : ∀ name ∈ b, IsName name) (h : ofNames a = ofNames b) : a = b := by
  rw [← names_ofNames ha, h, names_ofNames hb]

/-- The names of a rooted path are proper ones. -/
theorem isName_of_mem_names {path : Text} (h : isRooted path = true) :
    ∀ name ∈ names path, IsName name := by
  have hRooted : (path.head? == some Byte.slash) = true := h
  intro name hName
  simp only [names, Trail.ofText, hRooted, List.mem_reverse] at hName
  exact Trail.isName_of_foldl_advance (Text.splitOn_no_sep _ path) (by simp) name hName

theorem clean_of_isRooted {path : Text} (h : isRooted path = true) :
    clean path = ofNames (names path) := by
  have hRooted : (path.head? == some Byte.slash) = true := h
  simp [clean, ofNames, names, Trail.ofText, hRooted]

/-- A rooted path in normal form is the one its names make. -/
theorem ofNames_of_clean {path : Text} (h : isRooted path = true) (hClean : clean path = path) :
    ofNames (names path) = path := by
  rw [← clean_of_isRooted h, hClean]

/-- What a path means in a rooted directory is a path made of proper names. -/
theorem absolute_eq_ofNames {current : Text} (hCurrent : isRooted current = true) (path : Text) :
    ∃ names, (∀ name ∈ names, IsName name) ∧ absolute current path = ofNames names := by
  have hClean : ∀ full, isRooted full = true →
      ∃ names, (∀ name ∈ names, IsName name) ∧ clean full = ofNames names :=
    fun full hRooted => ⟨names full, isName_of_mem_names hRooted, clean_of_isRooted hRooted⟩
  unfold absolute
  split
  · next hRooted => exact hClean path hRooted
  · cases current with
    | nil => exact absurd hCurrent (by decide)
    | cons b rest =>
        have hHead : b = Byte.slash := by simpa [isRooted] using hCurrent
        exact hClean (b :: rest ++ Byte.slash :: path) (by simp [isRooted, hHead])

/-! ## Paths inside a directory -/

/-- Each name is written with a slash in front of it. -/
theorem ofNames_eq_flatMap {names : List Text} (h : names ≠ []) :
    ofNames names = names.flatMap (Byte.slash :: ·) := by
  rw [ofNames_eq]
  induction names with
  | nil => exact absurd rfl h
  | cons name names ih =>
      cases names with
      | nil => simp [Text.join]
      | cons next names =>
          rw [Text.join_cons _ _ (by simp), List.flatMap_cons, ← ih (by simp)]
          simp

theorem ofNames_append_name {names : List Text} (h : names ≠ []) (name : Text) :
    ofNames (names ++ [name]) = ofNames names ++ Byte.slash :: name := by
  rw [ofNames_eq_flatMap (by simp), ofNames_eq_flatMap h]
  simp

theorem ofText_append_name {names : List Text} (h : ∀ n ∈ names, IsName n) {name : Text}
    (hName : IsName name) :
    Trail.ofText (ofNames names ++ Byte.slash :: name) =
      { rooted := true, names := names ++ [name] } := by
  have hRooted : ((ofNames names ++ Byte.slash :: name).head? == some Byte.slash) = true := by
    simp [ofNames_eq]
  have hParts : Text.splitOn Byte.slash (ofNames names ++ Byte.slash :: name) =
      Text.splitOn Byte.slash (ofNames names) ++ [name] := by
    rw [Text.splitOn_append, Text.splitOn_of_not_mem hName.no_slash]
  simp only [Trail.ofText, hRooted, hParts, List.foldl_append, foldl_advance_ofNames h,
    List.foldl_cons, List.foldl_nil, Trail.advance_name hName, List.append_nil, List.reverse_cons,
    List.reverse_reverse]

/-- The path of a name inside a directory has that name after the others. -/
theorem join_ofNames {names : List Text} (h : ∀ n ∈ names, IsName n) {name : Text}
    (hName : IsName name) : Path.join (ofNames names) name = ofNames (names ++ [name]) := by
  have hFull : (ofNames names).isEmpty = false := by simp [ofNames_eq]
  rw [Path.join, hFull]
  simp only [Bool.false_eq_true, if_false]
  rw [clean, ofText_append_name h hName, ofNames]

/-- What follows the last slash of a path is its last name. -/
theorem base_append (front : Text) {name : Text} (hName : IsName name) :
    base (front ++ Byte.slash :: name) = name := by
  have hNoSlash : ∀ b ∈ name.reverse, (b != Byte.slash) = true := by
    intro b hb
    rw [bne_iff_ne]
    exact fun hEq => hName.no_slash (hEq ▸ List.mem_reverse.1 hb)
  rw [base, List.reverse_append, List.reverse_cons, List.append_assoc, List.singleton_append]
  cases hRev : name.reverse with
  | nil => exact absurd (List.reverse_eq_nil_iff.1 hRev) hName.ne_nil
  | cons b rest =>
      rw [hRev] at hNoSlash
      have hHead : (b == Byte.slash) = false := by
        have := hNoSlash b (by simp)
        simpa using this
      have hTake : (b :: rest ++ Byte.slash :: front.reverse).takeWhile (· != Byte.slash) =
          b :: rest := by
        rw [List.takeWhile_append_of_pos hNoSlash]
        simp
      have hDrop : (b :: rest ++ Byte.slash :: front.reverse).dropWhile (· == Byte.slash) =
          b :: rest ++ Byte.slash :: front.reverse := by
        simp [hHead]
      have hEmpty : (front ++ Byte.slash :: name).isEmpty = false := by simp
      rw [hEmpty, hDrop]
      simp only [Bool.false_eq_true, if_false, List.cons_append]
      rw [List.cons_append] at hTake
      rw [hTake, ← hRev, List.reverse_reverse]

/-- The last name of a path in normal form. -/
theorem base_ofNames (names : List Text) {name : Text} (hName : IsName name) :
    base (ofNames (names ++ [name])) = name := by
  have hSplit : ofNames (names ++ [name]) = names.flatMap (Byte.slash :: ·) ++ Byte.slash :: name := by
    rw [ofNames_eq_flatMap (by simp)]
    simp
  rw [hSplit, base_append _ hName]

/-- A path lies inside a directory when its names go on from the directory's. -/
theorem ofNames_prefix_iff {dir names : List Text} (hDir : dir ≠ [])
    (hDirNames : ∀ n ∈ dir, IsName n) (hNames : ∀ n ∈ names, IsName n) :
    ofNames dir ++ [Byte.slash] <+: ofNames names ↔ ∃ rest, rest ≠ [] ∧ names = dir ++ rest := by
  constructor
  · rintro ⟨rest, hRest⟩
    have hCut : [] :: names = ([] :: dir) ++ Text.splitOn Byte.slash rest := by
      have hNe : names ≠ [] := by
        rintro rfl
        have hLen := congrArg List.length hRest
        rw [ofNames_eq_flatMap hDir] at hLen
        cases dir with
        | nil => exact hDir rfl
        | cons d ds => simp [ofNames_eq, Text.join] at hLen
      rw [← splitOn_ofNames hNe hNames, ← splitOn_ofNames hDir hDirNames, ← Text.splitOn_append,
        ← hRest, List.append_assoc, List.singleton_append]
    exact ⟨Text.splitOn Byte.slash rest, Text.splitOn_ne_nil _ rest, by simpa using hCut⟩
  · rintro ⟨rest, hRest, rfl⟩
    cases rest with
    | nil => exact absurd rfl hRest
    | cons name rest =>
        rw [ofNames_eq_flatMap hDir, ofNames_eq_flatMap (by simp)]
        exact ⟨name ++ rest.flatMap (Byte.slash :: ·), by simp⟩

end Path

end DottedNames
