import DottedNames.Proofs.DiskTree
import DottedNames.Proofs.Trails

/-!
# Paths that are one name longer

A survey writes the path of an entry by joining the path of the directory and the
entry's name, and the disk is then asked about the longer path from the top again.
That it leads into the same directory has to be shown. The walk along a path may be
turned aside by links, and each uses up one of those that a path may lead through; but
it goes along the first names of the longer path just as it went along the shorter
one, and what is left to do at the end is one name.

Joining also puts the path in normal form, and there a step up takes back the name
before it, link or not. So the two lead to the same place only if the path is
`Settled`: its normal form leads where the path itself does. A path without steps up
is settled, and so of course is one in normal form.

## Main results

* `Disk.walk_append`, `Disk.resolve_cases` — walking on from where some names lead.
* `View.settled_of_no_above` — paths without steps up are settled.
* `View.Settled.inspect_join_iff` — what stands in a directory is what the joined
  paths show, whatever links the directory's own path leads through.
-/

namespace DottedNames

/-- Joining fewer parts leaves out some of the bytes. -/
theorem Text.join_sublist (sep : Text) {parts more : List Text} (h : parts.Sublist more) :
    (join sep parts).Sublist (join sep more) := by
  induction h with
  | slnil => exact List.Sublist.refl _
  | @cons parts more part hParts ih =>
      cases more with
      | nil => simp [List.sublist_nil.1 hParts, join]
      | cons next more =>
          rw [join_cons sep part (by simp)]
          exact ih.trans (List.sublist_append_right _ _)
  | @cons_cons parts more part hParts ih =>
      cases more with
      | nil =>
          obtain rfl := List.sublist_nil.1 hParts
          exact List.Sublist.refl _
      | cons next more =>
          rw [join_cons sep part (List.cons_ne_nil next more)]
          cases parts with
          | nil =>
              rw [List.append_assoc]
              exact List.sublist_append_left part _
          | cons first parts =>
              rw [join_cons sep part (List.cons_ne_nil first parts)]
              exact List.Sublist.append_left ih _

/-- Whether a part of a path is a step; the others stand for the place itself. -/
def Trail.isStep (part : Text) : Bool := part != [] && part != here

theorem Trail.not_isStep_iff {part : Text} : ¬ isStep part = true ↔ part = [] ∨ part = here := by
  by_cases hNil : part = [] <;> simp [isStep, hNil]

namespace Disk

variable {disk : Disk} {loc found : Location} {names : List Text}

/-- A walk along more names goes on where the walk along the first of them ends.
What is in the last place has no part in how far the first names lead, so every
link among them is followed. -/
theorem walk_append (disk : Disk) (ending : Ending) (loc : Location) (names : List Text)
    {more : List Text} (hMore : more ≠ []) :
    disk.walk ending loc (names ++ more) =
      match disk.walk { follow := true, absent := false } loc names with
      | .ok (.arrived found) => disk.walk ending found more
      | .ok (.redirected next rest) => .ok (.redirected next (rest ++ more))
      | .error fault => .error fault := by
  induction names generalizing loc with
  | nil => rfl
  | cons name rest ih =>
      have hLonger : (rest ++ more).isEmpty = false := by simp [hMore]
      rw [List.cons_append, walk, walk]
      cases hLoc : disk.get? loc with
      | none => rfl
      | some here =>
          cases here with
          | file content => rfl
          | link target => rfl
          | directory =>
              simp only
              by_cases hHere : name = [] ∨ name = Trail.here
              · rw [if_pos hHere, if_pos hHere]
                exact ih loc
              rw [if_neg hHere, if_neg hHere]
              by_cases hAbove : name = Trail.above
              · rw [if_pos hAbove, if_pos hAbove]
                exact ih loc.dropLast
              rw [if_neg hAbove, if_neg hAbove]
              by_cases hLong : maxName < name.length
              · rw [if_pos hLong, if_pos hLong]
              rw [if_neg hLong, if_neg hLong]
              cases hNext : disk.get? (loc ++ [name]) with
              | none => simp [hLonger]
              | some next =>
                  cases next with
                  | file content => exact ih (loc ++ [name])
                  | directory => exact ih (loc ++ [name])
                  | link target => simp [hLonger]

/-- Names lead to a location with a number of links to spare, and further names are
resolved from there. -/
structure LeadsOn (disk : Disk) (links : Nat) (loc : Location) (names : List Text)
    (found : Location) (left : Nat) : Prop where
  arrives : disk.resolve { follow := true, absent := false } links loc names = .ok found
  goesOn : ∀ (ending : Ending) (more : List Text), more ≠ [] →
    disk.resolve ending links loc (names ++ more) = disk.resolve ending left found more

/-- Names that lead nowhere lead nowhere with more names either, and names that lead
somewhere lead on from there. -/
theorem resolve_cases (disk : Disk) (links : Nat) (loc : Location) (names : List Text) :
    (∃ fault, disk.resolve { follow := true, absent := false } links loc names = .error fault ∧
        ∀ (ending : Ending) (more : List Text), more ≠ [] →
          disk.resolve ending links loc (names ++ more) = .error fault) ∨
      ∃ found left, LeadsOn disk links loc names found left := by
  fun_induction resolve disk { follow := true, absent := false } links loc names with
  | case1 links loc names fault hWalk =>
      refine Or.inl ⟨fault, rfl, fun ending more hMore => ?_⟩
      rw [resolve, walk_append disk ending loc names hMore, hWalk]
  | case2 links loc names found hWalk =>
      refine Or.inr ⟨found, links, by rw [resolve, hWalk], fun ending more hMore => ?_⟩
      rw [resolve, walk_append disk ending loc names hMore, hWalk, resolve]
  | case3 loc names next rest hWalk =>
      refine Or.inl ⟨.linkLoop, rfl, fun ending more hMore => ?_⟩
      rw [resolve, walk_append disk ending loc names hMore, hWalk]
  | case4 loc names next rest hWalk links ih =>
      have hStep : ∀ (ending : Ending) (more : List Text), more ≠ [] →
          disk.resolve ending (links + 1) loc (names ++ more) =
            disk.resolve ending links next (rest ++ more) := by
        intro ending more hMore
        rw [resolve, walk_append disk ending loc names hMore, hWalk]
      rcases ih with ⟨fault, hError, hFails⟩ | ⟨found, left, hArrives, hOn⟩
      · refine Or.inl ⟨fault, hError, fun ending more hMore => ?_⟩
        rw [hStep ending more hMore, hFails ending more hMore]
      · refine Or.inr ⟨found, left, ?_, fun ending more hMore => ?_⟩
        · rw [resolve, hWalk]
          exact hArrives
        · rw [hStep ending more hMore, hOn ending more hMore]

theorem exists_leadsOn {links : Nat}
    (h : disk.resolve { follow := true, absent := false } links loc names = .ok found) :
    ∃ left, LeadsOn disk links loc names found left := by
  rcases resolve_cases disk links loc names with ⟨fault, hError, -⟩ | ⟨other, left, hLeads⟩
  · rw [h] at hError
    exact absurd hError (by simp)
  · obtain rfl : found = other := Except.ok.inj (h.symm.trans hLeads.arrives)
    exact ⟨left, hLeads⟩

/-- What more names lead to, the first of them lead on to, and through a directory. -/
theorem exists_leadsOn_of_append {ending : Ending} {links : Nat} {name : Text} {rest : List Text}
    (h : disk.resolve ending links loc (names ++ name :: rest) = .ok found) :
    ∃ between left, LeadsOn disk links loc names between left ∧
      disk.get? between = some .directory := by
  rcases resolve_cases disk links loc names with ⟨fault, -, hError⟩ | ⟨between, left, hLeads⟩
  · rw [hError ending (name :: rest) (by simp)] at h
    exact absurd h (by simp)
  · refine ⟨between, left, hLeads, ?_⟩
    rw [hLeads.goesOn ending (name :: rest) (by simp), resolve] at h
    cases hWalk : disk.walk ending between (name :: rest) with
    | error fault => simp [hWalk] at h
    | ok passage => exact directory_of_walk hWalk

/-! ## One name -/

theorem resolve_nil (disk : Disk) (ending : Ending) (links : Nat) (loc : Location) :
    disk.resolve ending links loc [] = .ok loc := by
  rw [resolve, walk]

theorem resolve_here (ending : Ending) (links : Nat) {name : Text} (rest : List Text)
    (hHere : name = [] ∨ name = Trail.here) (hDir : disk.get? loc = some .directory) :
    disk.resolve ending links loc (name :: rest) = disk.resolve ending links loc rest := by
  rw [resolve, walk_here ending rest hHere hDir, resolve]

/-- Parts that stand for the place itself can be left out. -/
theorem LeadsOn.filter {links left : Nat} {names rest : List Text}
    (h : LeadsOn disk links loc (names ++ rest) found left) :
    LeadsOn disk links loc (names ++ rest.filter Trail.isStep) found left := by
  induction rest generalizing names with
  | nil => exact h
  | cons part rest ih =>
      have hLater : LeadsOn disk links loc (names ++ [part] ++ rest.filter Trail.isStep) found left :=
        ih (by simpa using h)
      rw [List.append_assoc, List.singleton_append] at hLater
      by_cases hStep : Trail.isStep part = true
      · rw [List.filter_cons_of_pos hStep]
        exact hLater
      · have hHere := Trail.not_isStep_iff.1 hStep
        rw [List.filter_cons_of_neg hStep]
        generalize rest.filter Trail.isStep = kept at hLater
        obtain ⟨between, spare, hLeads, hDir⟩ := exists_leadsOn_of_append hLater.arrives
        have hPast : ∀ (ending : Ending) (more : List Text),
            disk.resolve ending links loc (names ++ part :: more) =
              disk.resolve ending spare between more := by
          intro ending more
          rw [hLeads.goesOn ending _ (by simp), resolve_here ending spare more hHere hDir]
        constructor
        · have hArrives := hLater.arrives
          rw [hPast] at hArrives
          by_cases hKept : kept = []
          · rw [hKept, resolve_nil] at hArrives
            rw [hKept, List.append_nil, hLeads.arrives, hArrives]
          · rw [hLeads.goesOn _ kept hKept, hArrives]
        · intro ending more hMore
          rw [List.append_assoc, hLeads.goesOn ending _ (by simp [hMore]), ← hPast,
            ← hLater.goesOn ending more hMore, List.append_assoc, List.cons_append]

/-- A name that stands in a directory leads to its entry, unless that is a link which
has to be followed. -/
theorem resolve_name (ending : Ending) (links : Nat) {name : Text} {entry : Entry}
    (hName : IsName name) (hDir : disk.get? loc = some .directory)
    (hFits : name.length ≤ maxName) (hEntry : disk.get? (loc ++ [name]) = some entry)
    (hEnd : ending.follow = false ∨ ∀ target, entry ≠ .link target) :
    disk.resolve ending links loc [name] = .ok (loc ++ [name]) := by
  have hNotHere : ¬ (name = [] ∨ name = Trail.here) := fun hEither =>
    hEither.elim hName.ne_nil hName.ne_here
  have hWalk : disk.walk ending loc [name] = .ok (.arrived (loc ++ [name])) := by
    rw [walk, hDir]
    simp only [if_neg hNotHere, if_neg hName.ne_above, if_neg (Nat.not_lt.2 hFits), hEntry]
    cases entry with
    | file content => rfl
    | directory => rfl
    | link target =>
        have hStays : ending.follow = false := hEnd.resolve_right fun hNot => hNot target rfl
        simp [hStays]
  rw [resolve, hWalk]

/-- A name that leads anywhere stands in a directory. -/
theorem entry_of_resolve_name {follow : Bool} {links : Nat} {name : Text} (hName : IsName name)
    (h : disk.resolve { follow, absent := false } links loc [name] = .ok found) :
    disk.get? loc = some .directory ∧ name.length ≤ maxName ∧
      ∃ entry, disk.get? (loc ++ [name]) = some entry := by
  have hNotHere : ¬ (name = [] ∨ name = Trail.here) := fun hEither =>
    hEither.elim hName.ne_nil hName.ne_here
  rw [resolve] at h
  cases hWalk : disk.walk { follow, absent := false } loc [name] with
  | error fault => simp [hWalk] at h
  | ok passage =>
      have hDir := directory_of_walk hWalk
      rw [walk, hDir] at hWalk
      by_cases hLong : maxName < name.length
      · simp [hNotHere, hName.ne_above, hLong] at hWalk
      · cases hEntry : disk.get? (loc ++ [name]) with
        | none => simp [hNotHere, hName.ne_above, hLong, hEntry] at hWalk
        | some entry => exact ⟨hDir, Nat.le_of_not_lt hLong, entry, rfl⟩

/-- So it leads to its entry, where that is no link to be followed. -/
theorem eq_of_resolve_name {follow : Bool} {links : Nat} {name : Text} {entry : Entry}
    (hName : IsName name) (hEntry : disk.get? (loc ++ [name]) = some entry)
    (hEnd : follow = false ∨ ∀ target, entry ≠ .link target)
    (h : disk.resolve { follow, absent := false } links loc [name] = .ok found) :
    found = loc ++ [name] := by
  obtain ⟨hDir, hFits, -⟩ := entry_of_resolve_name hName h
  rw [resolve_name { follow, absent := false } links hName hDir hFits hEntry hEnd] at h
  exact (Except.ok.inj h).symm

end Disk

/-! ## Paths and their normal forms -/

namespace Trail

/-- Without steps up, the names of a path are its steps. -/
theorem foldl_advance_of_no_above (rooted : Bool) {parts : List Text} (h : above ∉ parts)
    (walked : List Text) :
    parts.foldl (advance rooted) walked = (parts.filter isStep).reverse ++ walked := by
  induction parts generalizing walked with
  | nil => rfl
  | cons part parts ih =>
      have hPart : part ≠ above := fun hEq => h (by simp [hEq])
      rw [List.foldl_cons, ih fun hMem => h (List.mem_cons_of_mem part hMem)]
      by_cases hStep : isStep part = true
      · have hNext : advance rooted walked part = part :: walked := by
          unfold advance
          rw [if_neg fun hHere => not_isStep_iff.2 hHere hStep, if_neg hPart]
        rw [List.filter_cons_of_pos hStep, hNext]
        simp
      · have hSame : advance rooted walked part = walked := by
          unfold advance
          rw [if_pos (not_isStep_iff.1 hStep)]
        rw [List.filter_cons_of_neg hStep, hSame]

theorem names_of_no_above {path : Text} (h : above ∉ Text.splitOn Byte.slash path) :
    (ofText path).names = (Text.splitOn Byte.slash path).filter isStep := by
  simp [ofText, foldl_advance_of_no_above _ h]

/-- A trail with one more name. -/
def extend (t : Trail) (name : Text) : Trail := { t with names := t.names ++ [name] }

/-- How a trail with one more name is written: after a slash, save at the top. -/
theorem toText_extend (t : Trail) (name : Text) :
    (t.extend name).toText = t.toText ++ Byte.slash :: name ∧ t.names ≠ [] ∨
      t.names = [] ∧ (t.rooted = true ∧ (t.extend name).toText = Byte.slash :: name ∨
        t.rooted = false ∧ (t.extend name).toText = name) := by
  by_cases hNames : t.names = []
  · refine Or.inr ⟨hNames, ?_⟩
    cases hRooted : t.rooted with
    | true => exact Or.inl ⟨rfl, by simp [extend, toText, hRooted, hNames, Text.join]⟩
    | false => exact Or.inr ⟨rfl, by simp [extend, toText, hRooted, hNames, Text.join]⟩
  · exact Or.inl ⟨toText_concat hNames name, hNames⟩

theorem zero_not_mem_toText {t : Trail} (h : (0 : UInt8) ∉ t.toText) {name : Text} :
    (0 : UInt8) ∉ (t.extend name).toText ↔ (0 : UInt8) ∉ name := by
  have hSlash : (0 : UInt8) ≠ Byte.slash := by decide
  rcases toText_extend t name with ⟨hText, -⟩ | ⟨-, ⟨-, hText⟩ | ⟨-, hText⟩⟩
  · simp [hText, h, hSlash]
  · simp [hText, hSlash]
  · rw [hText]

end Trail

namespace Path

/-- The path of a name inside a directory, by normal forms. -/
theorem join_eq {path : Text} (hPath : path ≠ []) {name : Text} (hName : IsName name) :
    join path name = ((Trail.ofText path).extend name).toText ∧
      ((Trail.ofText path).extend name).IsNormal := by
  have hRead : Trail.ofText (path ++ Byte.slash :: name) = (Trail.ofText path).extend name :=
    Trail.ofText_append_names hPath (List.cons_ne_nil name []) fun n hn =>
      List.mem_singleton.1 hn ▸ hName
  refine ⟨?_, hRead ▸ Trail.isNormal_ofText _⟩
  rw [join, if_neg (by simpa using hPath), clean, hRead]

/-- A path is what comes before the last name of a joined one. -/
theorem ofText_join_parent {path : Text} (hPath : path ≠ []) {name : Text} (hName : IsName name) :
    (Trail.ofText (join path name)).parent = Trail.ofText path := by
  obtain ⟨hJoin, hNormal⟩ := join_eq hPath hName
  rw [hJoin, Trail.ofText_toText hNormal]
  simp [Trail.parent, Trail.extend]

/-- The normal form of a path without steps up leaves out some of its bytes. -/
theorem clean_sublist {path : Text} (hPath : path ≠ [])
    (h : Trail.above ∉ Text.splitOn Byte.slash path) : (clean path).Sublist path := by
  have hNames := Trail.names_of_no_above h
  have hSteps : ∀ s : Text,
      (Text.join [Byte.slash] ((Text.splitOn Byte.slash s).filter Trail.isStep)).Sublist s := by
    intro s
    have hJoin := Text.join_sublist [Byte.slash]
      (List.filter_sublist (p := Trail.isStep) (l := Text.splitOn Byte.slash s))
    rwa [Text.join_splitOn] at hJoin
  cases path with
  | nil => exact absurd rfl hPath
  | cons b rest =>
      by_cases hSlash : b = Byte.slash
      · have hRooted : (Trail.ofText (b :: rest)).rooted = true := by simp [Trail.ofText, hSlash]
        have hCut : Text.splitOn Byte.slash (b :: rest) = [] :: Text.splitOn Byte.slash rest := by
          rw [Text.splitOn, if_pos hSlash]
        rw [hCut, List.filter_cons_of_neg (by decide)] at hNames
        rw [clean, Trail.toText, hRooted, hNames, hSlash]
        exact (hSteps rest).cons_cons Byte.slash
      · have hRooted : (Trail.ofText (b :: rest)).rooted = false := by simp [Trail.ofText, hSlash]
        by_cases hNone : (Trail.ofText (b :: rest)).names = []
        · -- the first part is not empty and no step, so it is a dot
          have hDot : b = Byte.dot := by
            rw [hNone, eq_comm, List.filter_eq_nil_iff] at hNames
            rw [Text.splitOn, if_neg hSlash] at hNames
            cases hParts : Text.splitOn Byte.slash rest with
            | nil => exact absurd hParts (Text.splitOn_ne_nil _ _)
            | cons part parts =>
                have hFirst := Trail.not_isStep_iff.1 (hNames (b :: part) (by simp [hParts]))
                have hHere : b :: part = Trail.here := hFirst.resolve_left (by simp)
                exact (List.cons.inj hHere).1
          rw [clean, Trail.toText, hRooted, hNone]
          exact List.singleton_sublist.2 (by simp [hDot])
        · have hText : clean (b :: rest) = Text.join [Byte.slash] (Trail.ofText (b :: rest)).names := by
            simp [clean, Trail.toText, hRooted]
          rw [hText, hNames]
          exact hSteps (b :: rest)

end Path

namespace View

variable {view : View} {path : Text} {loc : Location}

/-- The parts that are walked from the top of the tree, given whether they start
there. -/
def way (view : View) (rooted : Bool) (parts : List Text) : List Text :=
  (if rooted then [] else Text.splitOn Byte.slash view.current) ++ parts

theorem parts_eq (view : View) (path : Text) :
    view.parts path = view.way (Path.isRooted path) (Text.splitOn Byte.slash path) := by
  unfold parts way
  cases Path.isRooted path <;> rfl

theorem way_concat (view : View) (rooted : Bool) (parts : List Text) (name : Text) :
    view.way rooted (parts ++ [name]) = view.way rooted parts ++ [name] :=
  (List.append_assoc _ _ _).symm

/-- The parts of a written trail lead where its names do. -/
theorem resolve_parts (ending : Disk.Ending) (links : Nat) {t : Trail} (h : t.IsNormal)
    (hNames : t.names ≠ []) :
    view.disk.resolve ending links [] (view.parts t.toText) =
      view.disk.resolve ending links [] (view.way t.rooted t.names) := by
  have hRooted : Path.isRooted t.toText = t.rooted := Trail.head?_toText h
  have hCut := Text.splitOn_join Byte.slash hNames h.no_slash
  rw [parts_eq, hRooted]
  cases hCase : t.rooted with
  | true =>
      have hText : t.toText = Byte.slash :: Text.join [Byte.slash] t.names := by
        simp [Trail.toText, hCase]
      rw [hText, Text.splitOn, if_pos rfl, hCut]
      exact Disk.resolve_here ending links t.names (Or.inl rfl) rfl
  | false =>
      have hText : t.toText = Text.join [Byte.slash] t.names := by
        simp [Trail.toText, hCase]
      rw [hText, hCut]

/-- The top of the tree, as a path. -/
theorem resolve_parts_top (ending : Disk.Ending) (links : Nat) {t : Trail} (hNames : t.names = [])
    (hRooted : t.rooted = true) :
    view.disk.resolve ending links [] (view.parts t.toText) =
      view.disk.resolve ending links [] (view.way t.rooted t.names) := by
  have hTop : t.toText = [Byte.slash] := by simp [Trail.toText, hRooted, hNames, Text.join]
  have hParts : view.parts t.toText = [[], []] := by rw [hTop]; rfl
  rw [hParts, Disk.resolve_here _ links _ (Or.inl rfl) rfl,
    Disk.resolve_here _ links _ (Or.inl rfl) rfl, hRooted, hNames]
  rfl

/-- The path of the current directory has a dot after the directory's own parts. -/
theorem parts_current (view : View) {t : Trail} (hNames : t.names = []) (hRooted : t.rooted = false) :
    view.parts t.toText = view.way t.rooted t.names ++ [Trail.here] := by
  have hHere : t.toText = Trail.here := by simp [Trail.toText, hRooted, hNames]
  rw [hHere, hRooted, hNames, ← way_concat]
  rfl

/-- Where a path in normal form leads, its names lead on from. -/
theorem leadsOn_way {t : Trail} (h : t.IsNormal) {links : Nat}
    (hLoc : view.disk.resolve { follow := true, absent := false } links []
      (view.parts t.toText) = .ok loc) :
    ∃ left, Disk.LeadsOn view.disk links [] (view.way t.rooted t.names) loc left := by
  by_cases hNames : t.names = []
  · cases hRooted : t.rooted with
    | true =>
        rw [resolve_parts_top _ links hNames hRooted, hRooted] at hLoc
        exact Disk.exists_leadsOn hLoc
    | false =>
        rw [parts_current view hNames hRooted, hRooted] at hLoc
        obtain ⟨between, left, hLeads, hDir⟩ := Disk.exists_leadsOn_of_append hLoc
        rw [hLeads.goesOn _ [Trail.here] (by simp),
          Disk.resolve_here _ left _ (Or.inr rfl) hDir, Disk.resolve_nil] at hLoc
        exact ⟨left, Except.ok.inj hLoc ▸ hLeads⟩
  · rw [resolve_parts _ links h hNames] at hLoc
    exact Disk.exists_leadsOn hLoc

/-- Where the names of a trail lead, its path does; that of a current directory only
where there is one. -/
theorem resolve_parts_of_leadsOn {t : Trail} (h : t.IsNormal) {links left : Nat}
    (hLeads : Disk.LeadsOn view.disk links [] (view.way t.rooted t.names) loc left)
    (hDir : t.names = [] → view.disk.get? loc = some .directory) :
    view.disk.resolve { follow := true, absent := false } links [] (view.parts t.toText) =
      .ok loc := by
  by_cases hNames : t.names = []
  · cases hRooted : t.rooted with
    | true =>
        rw [resolve_parts_top _ links hNames hRooted]
        exact hLeads.arrives
    | false =>
        rw [parts_current view hNames hRooted, hLeads.goesOn _ [Trail.here] (by simp),
          Disk.resolve_here _ left _ (Or.inr rfl) (hDir hNames), Disk.resolve_nil]
  · rw [resolve_parts _ links h hNames]
    exact hLeads.arrives

/-- The normal form of a path leads where the path does. -/
def Settled (view : View) (path : Text) : Prop :=
  ∀ loc, view.locate { follow := true, absent := false } path = .ok loc →
    view.locate { follow := true, absent := false } (Path.clean path) = .ok loc

theorem settled_of_clean (h : Path.clean path = path) : view.Settled path := by
  intro loc hLoc
  rw [h]
  exact hLoc

/-- A path without steps up is settled: in its normal form the parts that stand for
the place itself are left out, and no link is passed differently. -/
theorem settled_of_no_above (h : Trail.above ∉ Text.splitOn Byte.slash path) :
    view.Settled path := by
  intro loc hLoc
  obtain ⟨hZero, hPath, hLength, hResolve⟩ := locate_eq_ok_iff.1 hLoc
  have hNormal := Trail.isNormal_ofText path
  have hSublist := Path.clean_sublist hPath h
  refine locate_eq_ok_iff.2 ⟨fun hMem => hZero (hSublist.subset hMem), Trail.toText_ne_nil hNormal,
    Nat.lt_of_le_of_lt hSublist.length_le hLength, ?_⟩
  rw [parts_eq] at hResolve
  obtain ⟨left, hWhole⟩ := Disk.exists_leadsOn hResolve
  have hLeads : Disk.LeadsOn view.disk Disk.maxLinks []
      (view.way (Trail.ofText path).rooted (Trail.ofText path).names) loc left := by
    rw [Trail.names_of_no_above h]
    exact hWhole.filter
  refine resolve_parts_of_leadsOn hNormal hLeads fun hNames => ?_
  -- a path that leads to a place has parts, and the first of them is looked up there
  cases hCut : Text.splitOn Byte.slash path with
  | nil => exact absurd hCut (Text.splitOn_ne_nil _ _)
  | cons part parts =>
      rw [hCut] at hResolve
      obtain ⟨between, spare, hFirst, hDir⟩ := Disk.exists_leadsOn_of_append hResolve
      have hArrives := hLeads.arrives
      rw [hNames, way, List.append_nil] at hArrives
      have hSame : between = loc := Except.ok.inj (hFirst.arrives.symm.trans hArrives)
      exact hSame ▸ hDir

/-- What the path of a name leads to is found from the directory. -/
theorem Settled.locate_join (h : view.Settled path)
    (hLoc : view.locate { follow := true, absent := false } path = .ok loc) {name : Text}
    (hName : IsName name) :
    ∃ left, ∀ (ending : Disk.Ending) (found : Location),
      view.locate ending (Path.join path name) = .ok found ↔
        (0 : UInt8) ∉ name ∧ (Path.join path name).length < Disk.maxPath ∧
          view.disk.resolve ending left loc [name] = .ok found := by
  have hPath : path ≠ [] := (locate_eq_ok_iff.1 hLoc).2.1
  obtain ⟨hZero, -, -, hResolve⟩ := locate_eq_ok_iff.1 (h loc hLoc)
  obtain ⟨hJoin, hNormal⟩ := Path.join_eq hPath hName
  obtain ⟨left, hLeads⟩ := leadsOn_way (Trail.isNormal_ofText path) hResolve
  have hWay : view.way ((Trail.ofText path).extend name).rooted
      ((Trail.ofText path).extend name).names =
        view.way (Trail.ofText path).rooted (Trail.ofText path).names ++ [name] :=
    way_concat view _ _ name
  refine ⟨left, fun ending found => ?_⟩
  rw [locate_eq_ok_iff, hJoin, Trail.zero_not_mem_toText hZero,
    resolve_parts ending _ hNormal (by simp [Trail.extend]), hWay,
    hLeads.goesOn ending [name] (by simp)]
  have hNonempty : ((Trail.ofText path).extend name).toText ≠ [] := Trail.toText_ne_nil hNormal
  simp [hNonempty]

theorem entry_eq_ok_iff {ending : Disk.Ending} {entry : Entry} :
    view.entry ending path = .ok entry ↔
      ∃ loc, view.locate ending path = .ok loc ∧ view.disk.get? loc = some entry := by
  unfold View.entry
  cases hLocate : view.locate ending path with
  | error fault => simp [bind, Except.bind]
  | ok loc =>
      cases hGet : view.disk.get? loc with
      | none => simp [bind, Except.bind, hGet]
      | some there => simp [bind, Except.bind, hGet]

/-- What stands in a directory is what the paths of its names show. -/
theorem Settled.inspect_join_iff (h : view.Settled path) (hTree : view.disk.IsTree)
    (hLoc : view.locate { follow := true, absent := false } path = .ok loc) {name : Text}
    (hName : IsName name) {entry : Entry} :
    view.inspect (Path.join path name) = .ok entry ↔
      (0 : UInt8) ∉ name ∧ (Path.join path name).length < Disk.maxPath ∧
        name.length ≤ Disk.maxName ∧ view.disk.get? (loc ++ [name]) = some entry := by
  obtain ⟨left, hJoin⟩ := h.locate_join hLoc hName
  rw [inspect, entry_eq_ok_iff]
  constructor
  · rintro ⟨found, hFound, hEntry⟩
    obtain ⟨hZero, hLength, hResolve⟩ := (hJoin _ found).1 hFound
    obtain ⟨-, hFits, there, hThere⟩ := Disk.entry_of_resolve_name hName hResolve
    have hSame := Disk.eq_of_resolve_name hName hThere (Or.inl rfl) hResolve
    exact ⟨hZero, hLength, hFits, hSame ▸ hEntry⟩
  · rintro ⟨hZero, hLength, hFits, hEntry⟩
    have hDir := hTree.directory_of_concat hEntry
    exact ⟨loc ++ [name], (hJoin _ _).2 ⟨hZero, hLength,
      Disk.resolve_name _ left hName hDir hFits hEntry (Or.inl rfl)⟩, hEntry⟩

/-- The path of a name leads into the directory, where no link stands. -/
theorem Settled.eq_of_locate_join (h : view.Settled path)
    (hLoc : view.locate { follow := true, absent := false } path = .ok loc) {name : Text}
    (hName : IsName name) {entry : Entry} (hEntry : view.disk.get? (loc ++ [name]) = some entry)
    (hEnd : ∀ target, entry ≠ .link target) {found : Location}
    (hFound : view.locate { follow := true, absent := false } (Path.join path name) = .ok found) :
    found = loc ++ [name] := by
  obtain ⟨left, hJoin⟩ := h.locate_join hLoc hName
  obtain ⟨-, -, hResolve⟩ := (hJoin _ found).1 hFound
  exact Disk.eq_of_resolve_name hName hEntry (Or.inr hEnd) hResolve

end View

end DottedNames
