import DottedNames.Proofs.DiskTree
import Mathlib.Logic.Relation

/-!
# Edits of a tree

Whatever a change does to a disk, it does by four kinds of edits: a new entry in
a directory, new content of a file, a tree taken away, and a tree moved. `Edit`
lists them with what each needs and the notices it gives. Each edit is described
by what stands at every location afterwards, each keeps a plain tree plain, and
every change that makes no link is a sequence of edits.

Edits are relative to a root that they never take away, neither by removing nor
by moving it or a directory above it.

## Main results

* `get?_insert`, `get?_eraseTree`, `get?_moveTree` — the effect on locations.
* `Edit.isPlain`, `Edit.root_stays` — what every edit preserves.
* `edits_applyChange` — changes are sequences of edits.
-/

namespace DottedNames

namespace Disk

/-! ## What stands where -/

private theorem lookup_filter (keep : Location → Bool) (entries : List (Location × Entry))
    (loc : Location) :
    (entries.filter fun e => keep e.1).lookup loc = if keep loc then entries.lookup loc else none := by
  induction entries with
  | nil => simp
  | cons e entries ih =>
      obtain ⟨here, entry⟩ := e
      by_cases hHere : loc = here
      · subst hHere
        by_cases hKeep : keep loc = true
        · simp [hKeep]
        · simp [hKeep, ih]
      · have hNe : (loc == here) = false := beq_eq_false_iff_ne.2 hHere
        by_cases hKeep : keep here = true
        · simp [hKeep, List.lookup_cons, hNe, ih]
        · simp [hKeep, List.lookup_cons, hNe, ih]

theorem get?_insert (disk : Disk) {loc : Location} (hLoc : loc ≠ []) (entry : Entry)
    (other : Location) :
    (disk.insert loc entry).get? other = if other = loc then some entry else disk.get? other := by
  cases other with
  | nil => simp [get?, Ne.symm hLoc]
  | cons name rest =>
      simp only [get?, insert, List.lookup_cons]
      by_cases hSame : name :: rest = loc
      · simp [hSame]
      · have hNe : (name :: rest == loc) = false := beq_eq_false_iff_ne.2 hSame
        simp [hSame, hNe, lookup_filter (· != loc)]

theorem not_isPrefixOf_iff {loc other : Location} :
    (!loc.isPrefixOf other) = true ↔ ¬ loc <+: other := by
  rw [Bool.not_eq_true', ← Bool.not_eq_true, List.isPrefixOf_iff_prefix]

theorem get?_eraseTree (disk : Disk) {loc : Location} (hLoc : loc ≠ []) (other : Location) :
    (disk.eraseTree loc).get? other = if loc <+: other then none else disk.get? other := by
  cases other with
  | nil => simp [get?, hLoc]
  | cons name rest =>
      simp only [get?, eraseTree, lookup_filter fun l => !loc.isPrefixOf l]
      by_cases hBelow : loc <+: name :: rest
      · rw [if_pos hBelow, if_neg fun hKept => not_isPrefixOf_iff.1 hKept hBelow]
      · rw [if_neg hBelow, if_pos (not_isPrefixOf_iff.2 hBelow)]

/-- Where a location is found after a tree has been moved. -/
def relocate (source goal loc : Location) : Location :=
  if source <+: loc then goal ++ loc.drop source.length else loc

theorem mem_moveTree {disk : Disk} {source goal loc : Location} {entry : Entry} :
    (loc, entry) ∈ (disk.moveTree source goal).entries ↔
      ∃ old, (old, entry) ∈ disk.entries ∧ ¬ goal <+: old ∧ loc = relocate source goal old := by
  simp only [moveTree, eraseTree, List.mem_map, List.mem_filter, relocate, not_isPrefixOf_iff,
    List.isPrefixOf_iff_prefix]
  constructor
  · rintro ⟨⟨old, found⟩, ⟨hMem, hKept⟩, hMoved⟩
    refine ⟨old, ?_⟩
    by_cases hBelow : source <+: old <;> simp_all
  · rintro ⟨old, hMem, hKept, rfl⟩
    refine ⟨(old, entry), ⟨hMem, hKept⟩, ?_⟩
    by_cases hBelow : source <+: old <;> simp [hBelow]

section Move

variable {disk : Disk} {source goal : Location} (hTree : disk.IsTree)
  (hApart : ¬ source <+: goal) (hApart' : ¬ goal <+: source)

theorem relocate_inj {a b : Location} (ha : ¬ goal <+: a) (hb : ¬ goal <+: b)
    (h : relocate source goal a = relocate source goal b) : a = b := by
  unfold relocate at h
  split at h
  · next hBelowA =>
      split at h
      · next hBelowB =>
          obtain ⟨restA, rfl⟩ := hBelowA
          obtain ⟨restB, rfl⟩ := hBelowB
          simpa using h
      · exact absurd ⟨_, h⟩ hb
  · split at h
    · exact absurd ⟨_, h.symm⟩ ha
    · exact h

include hTree in
theorem distinct_moveTree : ((disk.moveTree source goal).entries.map Prod.fst).Nodup := by
  have hKeys : (disk.moveTree source goal).entries.map Prod.fst =
      ((disk.eraseTree goal).entries.map Prod.fst).map (relocate source goal) := by
    simp only [moveTree, List.map_map]
    congr 1
    funext ⟨old, entry⟩
    by_cases hBelow : source <+: old <;>
      simp [relocate, List.isPrefixOf_iff_prefix, hBelow]
  have hErased : ((disk.eraseTree goal).entries.map Prod.fst).Nodup :=
    List.Nodup.sublist (List.filter_sublist.map Prod.fst) hTree.distinct
  have hKept : ∀ old ∈ (disk.eraseTree goal).entries.map Prod.fst, ¬ goal <+: old := by
    intro old hOld
    obtain ⟨e, he, rfl⟩ := List.mem_map.1 hOld
    exact not_isPrefixOf_iff.1 (List.mem_filter.1 he).2
  rw [hKeys]
  exact List.pairwise_map.2 (hErased.imp_of_mem fun ha hb hNe hEq =>
    hNe (relocate_inj (hKept _ ha) (hKept _ hb) hEq))

include hTree in
private theorem get?_moveTree_iff {loc : Location} (hLoc : loc ≠ [])
    {entry : Entry} :
    (disk.moveTree source goal).get? loc = some entry ↔
      ∃ old, disk.get? old = some entry ∧ old ≠ [] ∧ ¬ goal <+: old ∧
        loc = relocate source goal old := by
  constructor
  · intro hGet
    obtain ⟨old, hMem, hKept, hMoved⟩ := mem_moveTree.1 (mem_of_get? hLoc hGet)
    exact ⟨old, hTree.get?_of_mem hMem, (hTree.named _ hMem).1, hKept, hMoved⟩
  · rintro ⟨old, hGet, hOld, hKept, hMoved⟩
    exact get?_of_mem (distinct_moveTree hTree) hLoc
      (mem_moveTree.2 ⟨old, mem_of_get? hOld hGet, hKept, hMoved⟩)

include hTree hApart hApart'

/-- A moved tree stands at its goal, nothing is left where it was, and all else
stays. -/
theorem get?_moveTree (other : Location) :
    (disk.moveTree source goal).get? other =
      if goal <+: other then disk.get? (source ++ other.drop goal.length)
      else if source <+: other then none else disk.get? other := by
  have hSource : source ≠ [] := fun hNil => hApart (hNil ▸ List.nil_prefix)
  have hGoal : goal ≠ [] := fun hNil => hApart' (hNil ▸ List.nil_prefix)
  by_cases hOther : other = []
  · subst hOther
    simp [get?, hSource, hGoal]
  have hIff := @get?_moveTree_iff disk source goal hTree other hOther
  apply Option.ext
  intro entry
  rw [hIff]
  split
  · next hBelow =>
      obtain ⟨rest, rfl⟩ := hBelow
      rw [List.drop_left]
      constructor
      · rintro ⟨old, hGet, -, hKept, hMoved⟩
        unfold relocate at hMoved
        split at hMoved
        · next hOld =>
            obtain ⟨tail, rfl⟩ := hOld
            rw [List.drop_left, List.append_cancel_left_eq] at hMoved
            exact hMoved ▸ hGet
        · exact absurd ⟨rest, hMoved⟩ hKept
      · intro hGet
        refine ⟨source ++ rest, hGet, by simp [hSource], ?_, ?_⟩
        · intro hBad
          rcases List.prefix_or_prefix_of_prefix hBad (List.prefix_append source rest) with h | h
          · exact hApart' h
          · exact hApart h
        · simp [relocate]
  · next hNotGoal =>
      split
      · next hBelow =>
          constructor
          · rintro ⟨old, hGet, -, hKept, hMoved⟩
            unfold relocate at hMoved
            split at hMoved
            · exact absurd ⟨_, hMoved.symm⟩ hNotGoal
            · next hOld => exact absurd (hMoved ▸ hBelow) hOld
          · intro hNone
            exact absurd hNone (by simp)
      · next hNotSource =>
          constructor
          · rintro ⟨old, hGet, -, hKept, hMoved⟩
            unfold relocate at hMoved
            split at hMoved
            · exact absurd ⟨_, hMoved.symm⟩ hNotGoal
            · exact hMoved ▸ hGet
          · intro hGet
            exact ⟨other, hGet, hOther, hNotGoal, by simp [relocate, hNotSource]⟩

end Move

theorem mem_tree {disk : Disk} {loc other : Location} :
    other ∈ disk.tree loc ↔ loc <+: other ∧ ∃ e ∈ disk.entries, e.1 = other := by
  simp [tree, List.mem_mergeSort, and_comm]

/-! ## Trees stay trees, and plain -/

private theorem mem_insert {disk : Disk} {loc : Location} {entry : Entry} {e : Location × Entry}
    (he : e ∈ (disk.insert loc entry).entries) : e = (loc, entry) ∨ e ∈ disk.entries := by
  rcases List.mem_cons.1 he with hNew | hOther
  · exact Or.inl hNew
  · exact Or.inr (List.mem_filter.1 hOther).1

theorem IsTree.insert {disk : Disk} (h : disk.IsTree) {dir : Location} {name : Text}
    {entry : Entry} (hDir : disk.get? dir = some .directory) (hName : IsName name)
    (hOld : disk.get? (dir ++ [name]) ≠ some .directory) :
    (disk.insert (dir ++ [name]) entry).IsTree := by
  have hLoc : dir ++ [name] ≠ [] := by simp
  refine ⟨?_, ?_, ?_⟩
  · have hOthers : ((disk.entries.filter fun e => e.1 != dir ++ [name]).map Prod.fst).Nodup :=
      List.Nodup.sublist (List.filter_sublist.map Prod.fst) h.distinct
    refine List.nodup_cons.2 ⟨?_, hOthers⟩
    intro hMem
    obtain ⟨e, he, hSame⟩ := List.mem_map.1 hMem
    exact absurd hSame (by simpa using (List.mem_filter.1 he).2)
  · intro e he
    rcases mem_insert he with rfl | hOther
    · refine ⟨by simp, fun n hn => ?_⟩
      rcases List.mem_append.1 hn with hAbove | hLast
      · exact h.isName hDir n hAbove
      · exact List.mem_singleton.1 hLast ▸ hName
    · exact h.named e hOther
  · intro e he
    rw [get?_insert disk hLoc entry]
    rcases mem_insert he with rfl | hOther
    · simpa using hDir
    · have hHeld := h.held e hOther
      have hOther : e.1.dropLast ≠ dir ++ [name] := fun hSame => hOld (hSame ▸ hHeld)
      rw [if_neg hOther]
      exact hHeld

theorem IsPlain.insert {disk : Disk} (h : disk.IsPlain) {dir : Location} {name : Text}
    {entry : Entry} (hDir : disk.get? dir = some .directory) (hName : IsName name)
    (hOld : disk.get? (dir ++ [name]) ≠ some .directory) (hEntry : ∀ target, entry ≠ .link target) :
    (disk.insert (dir ++ [name]) entry).IsPlain := by
  refine ⟨h.toIsTree.insert hDir hName hOld, fun e he => ?_⟩
  rcases mem_insert he with rfl | hOther
  · exact hEntry
  · exact h.linkFree e hOther

private theorem mem_eraseTree {disk : Disk} {loc : Location} {e : Location × Entry}
    (he : e ∈ (disk.eraseTree loc).entries) : e ∈ disk.entries ∧ ¬ loc <+: e.1 := by
  obtain ⟨hMem, hApart⟩ := List.mem_filter.1 he
  exact ⟨hMem, not_isPrefixOf_iff.1 hApart⟩

theorem IsTree.eraseTree {disk : Disk} (h : disk.IsTree) {loc : Location} (hLoc : loc ≠ []) :
    (disk.eraseTree loc).IsTree := by
  refine ⟨?_, fun e he => h.named e (mem_eraseTree he).1, ?_⟩
  · exact List.Nodup.sublist (List.filter_sublist.map Prod.fst) h.distinct
  · intro e he
    obtain ⟨hMem, hApart⟩ := mem_eraseTree he
    have hAbove : ¬ loc <+: e.1.dropLast := fun hBad => hApart (hBad.trans (List.dropLast_prefix e.1))
    rw [get?_eraseTree disk hLoc, if_neg hAbove]
    exact h.held e hMem

/-- Nothing is below what is no directory. -/
theorem IsTree.eq_of_below {disk : Disk} (h : disk.IsTree) {loc other : Location} {entry : Entry}
    (hLoc : disk.get? loc ≠ some .directory) (hOther : disk.get? other = some entry)
    (hBelow : loc <+: other) : other = loc := by
  refine Classical.byContradiction fun hNe => hLoc ?_
  exact h.directory_of_strict hBelow (Ne.symm hNe) hOther

/-- Erasing what is no directory takes nothing else away. -/
theorem IsTree.get?_eraseTree_of_ne {disk : Disk} (h : disk.IsTree) {loc other : Location}
    (hNil : loc ≠ []) (hLoc : disk.get? loc ≠ some .directory) (hNe : other ≠ loc) :
    (disk.eraseTree loc).get? other = disk.get? other := by
  rw [get?_eraseTree disk hNil]
  split
  · next hBelow =>
      cases hOther : disk.get? other with
      | none => rfl
      | some entry => exact absurd (h.eq_of_below hLoc hOther hBelow) hNe
  · rfl

theorem IsPlain.eraseTree {disk : Disk} (h : disk.IsPlain) {loc : Location} (hLoc : loc ≠ []) :
    (disk.eraseTree loc).IsPlain :=
  ⟨h.toIsTree.eraseTree hLoc, fun e he => h.linkFree e (mem_eraseTree he).1⟩

private theorem not_concat_prefix (dir : Location) (name : Text) : ¬ dir ++ [name] <+: dir := by
  intro hBad
  have hLen := hBad.length_le
  rw [List.length_append, List.length_singleton] at hLen
  omega

theorem IsPlain.moveTree {disk : Disk} (h : disk.IsPlain) {source dir : Location} {name : Text}
    (hDir : disk.get? dir = some .directory) (hName : IsName name)
    (hApart : ¬ source <+: dir ++ [name]) (hApart' : ¬ dir ++ [name] <+: source) :
    (disk.moveTree source (dir ++ [name])).IsPlain := by
  have hGet := get?_moveTree h.toIsTree hApart hApart'
  have hGoal : ∀ n ∈ dir ++ [name], IsName n := by
    intro n hn
    rcases List.mem_append.1 hn with hAbove | hLast
    · exact h.isName hDir n hAbove
    · exact List.mem_singleton.1 hLast ▸ hName
  refine ⟨⟨distinct_moveTree h.toIsTree, ?_, ?_⟩, ?_⟩
  · rintro ⟨loc, entry⟩ hMem
    obtain ⟨old, hOld, -, rfl⟩ := mem_moveTree.1 hMem
    obtain ⟨hNe, hNames⟩ := h.named _ hOld
    unfold relocate
    split
    · refine ⟨by simp, fun n hn => ?_⟩
      rcases List.mem_append.1 hn with hAbove | hRest
      · exact hGoal n hAbove
      · exact hNames n (List.mem_of_mem_drop hRest)
    · exact ⟨hNe, hNames⟩
  · rintro ⟨loc, entry⟩ hMem
    obtain ⟨old, hOld, hKept, rfl⟩ := mem_moveTree.1 hMem
    have hHeld := h.held _ hOld
    rw [hGet]
    unfold relocate
    split
    · next hBelow =>
        obtain ⟨rest, rfl⟩ := hBelow
        rw [List.drop_left]
        by_cases hRest : rest = []
        · have hNotGoal := not_concat_prefix dir name
          have hNotSource : ¬ source <+: dir := fun hBad => hApart (hBad.trans (List.prefix_append _ _))
          simpa [hRest, hNotGoal, hNotSource] using hDir
        · rw [List.dropLast_append_of_ne_nil hRest] at hHeld ⊢
          rw [if_pos (List.prefix_append _ _), List.drop_left]
          exact hHeld
    · next hNotSource =>
        rw [if_neg fun hBad => hKept (hBad.trans (List.dropLast_prefix old)),
          if_neg fun hBad => hNotSource (hBad.trans (List.dropLast_prefix old))]
        exact hHeld
  · rintro ⟨loc, entry⟩ hMem
    obtain ⟨old, hOld, -, -⟩ := mem_moveTree.1 hMem
    exact h.linkFree (old, entry) hOld

/-- A plain tree with a directory at a given location. -/
structure Hosts (disk : Disk) (root : Location) : Prop extends IsPlain disk where
  home : disk.get? root = some .directory

end Disk

/-! ## Edits -/

/-- One edit of a tree, with the notices it gives. The root is a location that
no edit takes away. -/
inductive Edit (root : Location) : Changed → Changed → Prop
  | create {c : Changed} {dir : Location} {name : Text} {entry : Entry}
      (hDir : c.disk.get? dir = some .directory) (hName : IsName name)
      (hFree : c.disk.get? (dir ++ [name]) = none) (hEntry : ∀ target, entry ≠ .link target) :
      Edit root c (c.create (dir ++ [name]) entry)
  | rewrite {c : Changed} {loc : Location} {old content : Text}
      (hFile : c.disk.get? loc = some (.file old)) :
      Edit root c
        { disk := c.disk.insert loc (.file content)
          notices := c.notices ++ [{ loc, signals := { write := true } }] }
  | erase {c : Changed} {loc : Location} {entry : Entry} (hLoc : loc ≠ [])
      (hThere : c.disk.get? loc = some entry) (hRoot : ¬ loc <+: root) :
      Edit root c
        { disk := c.disk.eraseTree loc
          notices := c.notices ++ (c.disk.tree loc).map fun loc =>
            { loc, signals := { remove := true } } }
  /-- A file may take the place of a file; else the goal is free. -/
  | move {c : Changed} {source dir : Location} {name : Text} {entry : Entry}
      (hSource : c.disk.get? source = some entry) (hRoot : ¬ source <+: root)
      (hDir : c.disk.get? dir = some .directory) (hName : IsName name)
      (hApart : ¬ source <+: dir ++ [name])
      (hGoal : c.disk.get? (dir ++ [name]) = none ∨
        entry ≠ .directory ∧ ∃ old, c.disk.get? (dir ++ [name]) = some (.file old)) :
      Edit root c
        { disk := c.disk.moveTree source (dir ++ [name])
          notices := c.notices ++
            [{ loc := source, signals := { rename := true } },
             { loc := dir ++ [name], signals := { create := true } }] }

/-- Any number of edits, one after the other. -/
abbrev Edits (root : Location) : Changed → Changed → Prop := Relation.ReflTransGen (Edit root)

namespace Edit

variable {root : Location}

theorem ne_nil_of_file {disk : Disk} {loc : Location} {content : Text}
    (h : disk.get? loc = some (.file content)) : loc ≠ [] := by
  rintro rfl
  exact absurd h (by simp [Disk.get?])

/-- The goal of a move holds nothing of what is moved. -/
theorem not_prefix_of_goal {disk : Disk} (hTree : disk.IsTree) {source goal : Location}
    {entry : Entry} (hSource : disk.get? source = some entry) (hApart : ¬ source <+: goal)
    (hGoal : disk.get? goal ≠ some .directory) : ¬ goal <+: source := by
  intro hBelow
  have hNe : goal ≠ source := fun hSame => hApart (hSame ▸ List.prefix_refl goal)
  exact hGoal (hTree.directory_of_strict hBelow hNe hSource)

theorem goal_not_directory {disk : Disk} {goal : Location} {entry : Entry}
    (hGoal : disk.get? goal = none ∨
      entry ≠ .directory ∧ ∃ old, disk.get? goal = some (.file old)) :
    disk.get? goal ≠ some .directory := by
  rcases hGoal with hFree | ⟨-, old, hFile⟩
  · simp [hFree]
  · simp [hFile]

/-- An edit keeps the tree plain. -/
theorem isPlain {c c' : Changed} (hEdit : Edit root c c') (h : c.disk.IsPlain) :
    c'.disk.IsPlain := by
  cases hEdit with
  | create hDir hName hFree hEntry => exact h.insert hDir hName (by simp [hFree]) hEntry
  | @rewrite loc old content hFile =>
      have hNe := ne_nil_of_file hFile
      have hDir := h.held _ (Disk.mem_of_get? hNe hFile)
      have hName := h.isName hFile _ (List.getLast_mem hNe)
      have hLoc : loc.dropLast ++ [loc.getLast hNe] = loc := List.dropLast_concat_getLast hNe
      have hOld : c.disk.get? (loc.dropLast ++ [loc.getLast hNe]) ≠ some .directory := by
        rw [hLoc, hFile]
        simp
      have hPlain : (c.disk.insert (loc.dropLast ++ [loc.getLast hNe]) (.file content)).IsPlain :=
        h.insert hDir hName hOld (by simp)
      rwa [hLoc] at hPlain
  | erase hLoc hThere hRoot => exact h.eraseTree hLoc
  | move hSource hRoot hDir hName hApart hGoal =>
      have hApart' := not_prefix_of_goal h.toIsTree hSource hApart (goal_not_directory hGoal)
      exact h.moveTree hDir hName hApart hApart'

/-- An edit leaves the root in its place, a directory or not as it was. -/
theorem root_stays {c c' : Changed} (hEdit : Edit root c c') (h : c.disk.IsPlain) {entry : Entry}
    (hRoot : c.disk.get? root = some entry) :
    ∃ entry', c'.disk.get? root = some entry' ∧ (entry' = .directory ↔ entry = .directory) := by
  cases hEdit with
  | @create dir name made hDir hName hFree hEntry =>
      have hNe : root ≠ dir ++ [name] := by
        rintro rfl
        exact absurd hRoot (by simp [hFree])
      exact ⟨entry, (Disk.get?_insert c.disk (by simp) _ root).trans ((if_neg hNe).trans hRoot),
        Iff.rfl⟩
  | @rewrite loc old content hFile =>
      have hGet := Disk.get?_insert c.disk (ne_nil_of_file hFile) (.file content) root
      by_cases hSame : root = loc
      · have hEntry : entry = .file old := Option.some.inj ((hSame ▸ hRoot).symm.trans hFile)
        exact ⟨.file content, hGet.trans (if_pos hSame), by simp [hEntry]⟩
      · exact ⟨entry, hGet.trans ((if_neg hSame).trans hRoot), Iff.rfl⟩
  | erase hLoc hThere hApart =>
      exact ⟨entry, (Disk.get?_eraseTree c.disk hLoc root).trans ((if_neg hApart).trans hRoot),
        Iff.rfl⟩
  | @move source dir name moved hSource hNotRoot hDir hName hApart hGoal =>
      have hNotDir := goal_not_directory hGoal
      have hApart' := not_prefix_of_goal h.toIsTree hSource hApart hNotDir
      have hGet := Disk.get?_moveTree h.toIsTree hApart hApart' root
      by_cases hBelow : dir ++ [name] <+: root
      · by_cases hSame : dir ++ [name] = root
        · -- The root itself is the goal: a file that a file replaces.
          rw [hSame] at hGoal hNotDir
          obtain ⟨hMoved, -⟩ := hGoal.resolve_left (by simp [hRoot])
          have hEntry : entry ≠ .directory := fun hBad => hNotDir (hBad ▸ hRoot)
          refine ⟨moved, hGet.trans ((if_pos hBelow).trans ?_), by simp [hMoved, hEntry]⟩
          simpa [hSame] using hSource
        · exact absurd (h.directory_of_strict hBelow hSame hRoot) hNotDir
      · exact ⟨entry, hGet.trans ((if_neg hBelow).trans ((if_neg hNotRoot).trans hRoot)), Iff.rfl⟩

theorem hosts {c c' : Changed} (hEdit : Edit root c c') (h : c.disk.Hosts root) :
    c'.disk.Hosts root := by
  obtain ⟨entry, hEntry, hKind⟩ := hEdit.root_stays h.toIsPlain h.home
  exact ⟨hEdit.isPlain h.toIsPlain, hKind.2 rfl ▸ hEntry⟩

end Edit

namespace Edits

variable {root : Location} {c c' : Changed}

theorem isPlain (hEdits : Edits root c c') (h : c.disk.IsPlain) : c'.disk.IsPlain := by
  induction hEdits with
  | refl => exact h
  | tail _ hEdit ih => exact hEdit.isPlain ih

theorem root_stays (hEdits : Edits root c c') (h : c.disk.IsPlain) {entry : Entry}
    (hRoot : c.disk.get? root = some entry) :
    ∃ entry', c'.disk.get? root = some entry' ∧ (entry' = .directory ↔ entry = .directory) := by
  induction hEdits with
  | refl => exact ⟨entry, hRoot, Iff.rfl⟩
  | tail hBefore hEdit ih =>
      obtain ⟨middle, hMiddle, hKind⟩ := ih
      obtain ⟨last, hLast, hLastKind⟩ := hEdit.root_stays (Edits.isPlain hBefore h) hMiddle
      exact ⟨last, hLast, hLastKind.trans hKind⟩

end Edits

/-! ## Changes -/

/-- Makes no link, and neither removes nor renames the root or a directory above
it. -/
def Change.Spares (root : Location) : Change → Prop
  | .write _ _ | .makeDirectory _ => True
  | .makeLink _ _ => False
  | .remove path | .rename path _ => ¬ Path.names (Byte.slash :: path) <+: root

namespace Disk

variable {root : Location} {c c' : Changed}

/-- The place that a path names although nothing is there lies in a
directory. -/
theorem place_of_locate (h : c.disk.IsPlain) {ending : Ending} {path : Text} {loc : Location}
    (hLocate : c.disk.locate ending path = .ok loc) (hFree : c.disk.get? loc = none) :
    ∃ dir name, loc = dir ++ [name] ∧ IsName name ∧ c.disk.get? dir = some .directory := by
  have hArrival : Arrival c.disk ending [] (View.parts { disk := c.disk } path) loc :=
    View.arrival_of_locate h hLocate
  rcases hArrival.present with hThere | ⟨-, -, hPlace⟩
  · rw [hFree] at hThere
    exact absurd hThere (by simp)
  · exact hPlace

/-- Where the last name may not be absent, a path names what is there. -/
theorem present_of_locate (h : c.disk.IsPlain) {ending : Ending} (hEnding : ending.absent = false)
    {path : Text} {loc : Location} (hLocate : c.disk.locate ending path = .ok loc) :
    ∃ entry, c.disk.get? loc = some entry := by
  have hArrival : Arrival c.disk ending [] (View.parts { disk := c.disk } path) loc :=
    View.arrival_of_locate h hLocate
  rcases hArrival.present with hThere | ⟨hAbsent, -⟩
  · exact Option.isSome_iff_exists.1 hThere
  · exact absurd hAbsent (by simp [hEnding])

theorem edits_makeDirectory (h : c.disk.IsPlain) {path : Text}
    (hMade : makeDirectory c path = .ok c') : Edits root c c' := by
  unfold makeDirectory at hMade
  split at hMade
  · split at hMade
    · obtain rfl : c = c' := by simpa using hMade
      exact .refl
    · exact absurd hMade (by simp)
  · cases hLocate : c.disk.locate { follow := false, absent := true } path with
    | error fault => simp [hLocate, bind, Except.bind] at hMade
    | ok loc =>
        cases hGet : c.disk.get? loc with
        | some entry => simp [hLocate, hGet, bind, Except.bind, throw, throwThe,
            MonadExceptOf.throw] at hMade
        | none =>
            obtain rfl : c.create loc .directory = c' := by
              simpa [hLocate, hGet, bind, Except.bind, pure, Except.pure] using hMade
            obtain ⟨dir, name, rfl, hName, hDir⟩ := place_of_locate h hLocate hGet
            exact .single (.create hDir hName hGet (by simp))
  · exact absurd hMade (by simp)

theorem edits_makeDirectories (h : c.disk.IsPlain) {path : Text}
    (hMade : makeDirectories c path = .ok c') : Edits root c c' := by
  unfold makeDirectories at hMade
  generalize (Trail.ofText path).chain.reverse = dirs at hMade
  induction dirs generalizing c with
  | nil =>
      obtain rfl : c = c' := by simpa [pure, Except.pure] using hMade
      exact .refl
  | cons dir dirs ih =>
      rw [List.foldlM_cons] at hMade
      cases hFirst : makeDirectory c dir.toText with
      | error fault => simp [hFirst, bind, Except.bind] at hMade
      | ok next =>
          have hEdits : Edits root c next := edits_makeDirectory h hFirst
          rw [hFirst] at hMade
          exact hEdits.trans (ih (Edits.isPlain hEdits h) hMade)

private theorem insert_insert (disk : Disk) (loc : Location) (entry : Entry) :
    (disk.insert loc entry).insert loc entry = disk.insert loc entry := by
  simp [insert]

/-- What writing a file does once its place is known. -/
theorem writeFile_eq_ok {path content : Text} (hWritten : writeFile c path content = .ok c') :
    ∃ loc news, c.disk.locate { follow := true, absent := true } path = .ok loc ∧
      c.disk.get? loc ≠ some .directory ∧
        c' = { disk := c.disk.insert loc (.file content), notices := c.notices ++ news } ∧
          news ≠ [] ∧ ∀ n ∈ news, n.loc = loc ∧
            (n.signals = { create := true } ∨ n.signals = { write := true }) := by
  unfold writeFile at hWritten
  cases hLocate : c.disk.locate { follow := true, absent := true } path with
  | error fault => simp [hLocate, bind, Except.bind] at hWritten
  | ok loc =>
      simp only [hLocate, bind, Except.bind, pure, Except.pure] at hWritten
      split at hWritten
      · next hFree =>
          refine ⟨loc, [{ loc, signals := { create := true } }, { loc, signals := { write := true } }],
            rfl, by simp [hFree], (Except.ok.inj hWritten).symm.trans ?_, by simp, by simp⟩
          simp [Changed.create]
      · next old hFile =>
          exact ⟨loc, [{ loc, signals := { write := true } }], rfl, by simp [hFile],
            (Except.ok.inj hWritten).symm, by simp, by simp⟩
      · exact absurd hWritten (by simp [throw, throwThe, MonadExceptOf.throw])

/-- A new file is an entry that is written at once. -/
theorem edits_writeFile (h : c.disk.IsPlain) {path content : Text}
    (hWritten : writeFile c path content = .ok c') : Edits root c c' := by
  unfold writeFile at hWritten
  cases hLocate : c.disk.locate { follow := true, absent := true } path with
  | error fault => simp [hLocate, bind, Except.bind] at hWritten
  | ok loc =>
      simp only [hLocate, bind, Except.bind, pure, Except.pure] at hWritten
      split at hWritten
      · next hFree =>
          obtain ⟨dir, name, rfl, hName, hDir⟩ := place_of_locate h hLocate hFree
          have hCreate : Edit root c (c.create (dir ++ [name]) (.file content)) :=
            .create hDir hName hFree (by simp)
          have hFile : (c.create (dir ++ [name]) (.file content)).disk.get? (dir ++ [name]) =
              some (.file content) := by
            show (c.disk.insert _ _).get? _ = _
            rw [get?_insert c.disk (by simp), if_pos rfl]
          have hRewrite := @Edit.rewrite root _ _ _ content hFile
          have hSame : (c.create (dir ++ [name]) (.file content)).disk.insert (dir ++ [name])
              (.file content) = (c.create (dir ++ [name]) (.file content)).disk :=
            insert_insert c.disk _ _
          rw [hSame] at hRewrite
          obtain rfl := Except.ok.inj hWritten
          exact (Relation.ReflTransGen.single hCreate).tail hRewrite
      · next old hFile =>
          obtain rfl := Except.ok.inj hWritten
          exact .single (.rewrite hFile)
      · exact absurd hWritten (by simp [throw, throwThe, MonadExceptOf.throw])

theorem removeTree_eq_ok {path : Text} (hRemoved : removeTree c path = .ok c') :
    ∃ loc, c.disk.locate { follow := false, absent := false } path = .ok loc ∧ loc ≠ [] ∧
      c' = { disk := c.disk.eraseTree loc
             notices := c.notices ++ (c.disk.tree loc).map fun loc =>
               { loc, signals := { remove := true } } } := by
  unfold removeTree at hRemoved
  cases hLocate : c.disk.locate { follow := false, absent := false } path with
  | error fault => simp [hLocate, bind, Except.bind] at hRemoved
  | ok loc =>
      simp only [hLocate, bind, Except.bind, pure, Except.pure] at hRemoved
      split at hRemoved
      · exact absurd hRemoved (by simp [throw, throwThe, MonadExceptOf.throw])
      · next hNe => exact ⟨loc, rfl, by simpa using hNe, (Except.ok.inj hRemoved).symm⟩

theorem edits_removeTree (h : c.disk.IsPlain) {path : Text}
    (hRoot : ¬ Path.names (Byte.slash :: path) <+: root)
    (hRemoved : removeTree c path = .ok c') : Edits root c c' := by
  obtain ⟨loc, hLocate, hNe, rfl⟩ := removeTree_eq_ok hRemoved
  obtain ⟨entry, hThere⟩ := present_of_locate h rfl hLocate
  exact .single (.erase hNe hThere (View.location_of_locate h hLocate ▸ hRoot))

/-- What a rename does once both its places are known: they are different, the
goal is no directory, and a directory only goes where nothing is. -/
theorem edit_move (h : c.disk.IsPlain) {source goal : Location} {entry : Entry}
    (hSource : c.disk.get? source = some entry) (hRoot : ¬ source <+: root)
    (hApart : ¬ source <+: goal) (hNotDir : c.disk.get? goal ≠ some .directory)
    (hOver : entry = .directory → c.disk.get? goal = none)
    (hPlace : c.disk.get? goal = none →
      ∃ dir name, goal = dir ++ [name] ∧ IsName name ∧ c.disk.get? dir = some .directory) :
    Edit root c
      { disk := c.disk.moveTree source goal
        notices := c.notices ++
          [{ loc := source, signals := { rename := true } },
           { loc := goal, signals := { create := true } }] } := by
  cases hGoal : c.disk.get? goal with
  | none =>
      obtain ⟨dir, name, rfl, hName, hDir⟩ := hPlace hGoal
      exact .move hSource hRoot hDir hName hApart (Or.inl hGoal)
  | some there =>
      have hNe : goal ≠ [] := fun hNil => hNotDir (hNil ▸ rfl)
      have hDir := h.held _ (mem_of_get? hNe hGoal)
      have hName := h.isName hGoal _ (List.getLast_mem hNe)
      have hEntry : entry ≠ .directory := fun hBad => by simp [hOver hBad] at hGoal
      have hLoc : goal.dropLast ++ [goal.getLast hNe] = goal := List.dropLast_concat_getLast hNe
      rw [← hLoc] at hApart hGoal ⊢
      cases there with
      | directory => exact absurd (hLoc ▸ hGoal) hNotDir
      | link target => exact absurd hGoal h.not_link
      | file old => exact .move hSource hRoot hDir hName hApart (Or.inr ⟨hEntry, old, hGoal⟩)

theorem edits_renameTree (h : c.disk.IsPlain) {path target : Text}
    (hRoot : ¬ Path.names (Byte.slash :: path) <+: root)
    (hRenamed : renameTree c path target = .ok c') : Edits root c c' := by
  unfold renameTree at hRenamed
  cases hFrom : c.disk.locate { follow := false, absent := false } path with
  | error fault => simp [hFrom, bind, Except.bind] at hRenamed
  | ok source =>
    cases hTo : c.disk.locate { follow := false, absent := true } target with
    | error fault => simp [hFrom, hTo, bind, Except.bind] at hRenamed
    | ok goal =>
        have hSourceRoot : ¬ source <+: root := View.location_of_locate h hFrom ▸ hRoot
        simp only [hFrom, hTo, bind, Except.bind, pure, Except.pure] at hRenamed
        split at hRenamed
        · exact absurd hRenamed (by simp [throw, throwThe, MonadExceptOf.throw])
        · next hValid =>
            split at hRenamed
            · obtain rfl := Except.ok.inj hRenamed
              exact .refl
            · next hMoves =>
                obtain ⟨entry, hSource⟩ := present_of_locate h rfl hFrom
                have hPlace := place_of_locate h hTo
                have hApart : c.disk.get? goal ≠ some .directory → ¬ source <+: goal := by
                  intro hNotDir hBelow
                  have hNe : source ≠ goal := fun hSame => hMoves ⟨hSame, hNotDir⟩
                  simp [List.isPrefixOf_iff_prefix, hBelow, hNe] at hValid
                rw [hSource] at hRenamed
                split at hRenamed
                · exact absurd hRenamed (by simp [throw, throwThe, MonadExceptOf.throw])
                · exact absurd hRenamed (by simp [throw, throwThe, MonadExceptOf.throw])
                · next hNotDir hOver =>
                    obtain rfl := Except.ok.inj hRenamed
                    refine .single (edit_move h hSource hSourceRoot (hApart hNotDir) hNotDir ?_ hPlace)
                    rintro rfl
                    cases hGoal : c.disk.get? goal with
                    | none => rfl
                    | some there => exact (hOver there rfl hGoal).elim

/-- A step that is not possible is not made. -/
theorem orStay_cases (c : Changed) (step : Changed → Except Fault Changed) :
    orStay c step = c ∨ step c = .ok (orStay c step) := by
  unfold orStay
  split
  · next next hNext => exact Or.inr hNext
  · exact Or.inl rfl

theorem edits_orStay (step : Changed → Except Fault Changed)
    (hStep : ∀ next, step c = .ok next → Edits root c next) : Edits root c (orStay c step) := by
  rcases orStay_cases c step with hStays | hMade
  · rw [hStays]
  · exact hStep _ hMade

/-- A change that makes no link and leaves the root in its place is a sequence
of edits. -/
theorem edits_applyChange (h : c.disk.IsPlain) {change : Change}
    (hChange : change.Spares root) : Edits root c (applyChange c change) := by
  have hMake : ∀ {c : Changed} (path : Text), c.disk.IsPlain →
      Edits root c (orStay c (makeDirectories · path)) :=
    fun path hPlain => edits_orStay _ fun _ hMade => edits_makeDirectories hPlain hMade
  cases change with
  | write path content =>
      have hAbove := hMake (Path.dir path) h
      exact hAbove.trans (edits_orStay (writeFile · path content) fun _ hWritten =>
        edits_writeFile (hAbove.isPlain h) hWritten)
  | makeDirectory path => exact hMake path h
  | makeLink path target => exact hChange.elim
  | remove path =>
      exact edits_orStay (removeTree · path) fun _ hRemoved => edits_removeTree h hChange hRemoved
  | rename path target =>
      have hAbove := hMake (Path.dir path) h
      have hAboveTarget := hMake (Path.dir target) (hAbove.isPlain h)
      exact (hAbove.trans hAboveTarget).trans (edits_orStay (renameTree · path target) fun _ hRenamed =>
        edits_renameTree (hAboveTarget.isPlain (hAbove.isPlain h)) hChange hRenamed)

/-- So are changes in order. -/
theorem edits_apply {disk : Disk} (h : disk.IsPlain) {changes : List Change}
    (hChanges : ∀ change ∈ changes, change.Spares root) :
    Edits root { disk } (disk.apply changes) := by
  unfold apply
  have hAll : ∀ c : Changed, c.disk.IsPlain → Edits root c (changes.foldl applyChange c) := by
    induction changes with
    | nil => exact fun c _ => .refl
    | cons change changes ih =>
        intro c hc
        have hFirst := edits_applyChange hc (hChanges change (by simp))
        exact hFirst.trans (ih (fun x hx => hChanges x (by simp [hx])) _ (hFirst.isPlain hc))
  exact hAll { disk } h

end Disk

end DottedNames
