import DottedNames.Proofs.Paths

/-!
# Normal forms of all paths

A rooted path in normal form is a list of proper names. A relative one may begin
with steps up, which nothing in front of them can cancel. `Trail.IsNormal` covers
both: proper names, and before them steps up when the trail is not rooted.
Reading a text always gives such a trail, and writing such a trail and reading it
again gives it back. So texts in normal form and normal trails are the same
thing, and the directory of a path, which is cut off the text, is the trail
without its last name.

Every lemma here is about arbitrary bytes: doubled slashes, dot names and
trailing slashes are all dealt with by `ofText`.

## Main results

* `isNormal_ofText`, `ofText_toText` — reading gives normal trails, and is the
  inverse of writing on them.
* `ofText_append_names` — going on from a path by proper names.
* `Path.dirTrail_toText` — the directory of a path drops its last name.
* `Path.ascent_eq` — the directories above a path, one after the other.
-/

namespace DottedNames

namespace Text

theorem join_concat (sep : Text) {parts : List Text} (h : parts ≠ []) (last : Text) :
    join sep (parts ++ [last]) = join sep parts ++ sep ++ last := by
  induction parts with
  | nil => exact absurd rfl h
  | cons part parts ih =>
      cases parts with
      | nil => rfl
      | cons next parts =>
          have hRest : next :: parts ≠ [] := by simp
          rw [List.cons_append, join_cons _ _ (by simp), ih hRest, join_cons _ part hRest]
          simp

end Text

namespace Trail

/-! ## Normal trails -/

/-- Names walked so far, nearest first: proper names, and before them steps up
where the walk does not start at the root. -/
def Walked (rooted : Bool) (walked : List Text) : Prop :=
  ∃ proper ups, walked = proper ++ List.replicate ups above ∧ (∀ n ∈ proper, IsName n) ∧
    (rooted = true → ups = 0)

/-- A trail in which nothing is left to cancel. -/
def IsNormal (t : Trail) : Prop := Walked t.rooted t.names.reverse

/-- Going on by one name leaves nothing to cancel. -/
theorem Walked.advance {rooted : Bool} {walked : List Text} {name : Text}
    (hName : Byte.slash ∉ name) (h : Walked rooted walked) :
    Walked rooted (Trail.advance rooted walked name) := by
  obtain ⟨proper, ups, rfl, hProper, hUps⟩ := h
  unfold Trail.advance
  split
  · exact ⟨proper, ups, rfl, hProper, hUps⟩
  · next hPlain =>
      rw [not_or] at hPlain
      split
      · cases proper with
        | cons last before =>
            have hLast := (hProper last (by simp)).ne_above
            simp only [List.cons_append, if_neg hLast]
            exact ⟨before, ups, rfl, fun n hn => hProper n (by simp [hn]), hUps⟩
        | nil =>
            cases ups with
            | zero =>
                cases rooted with
                | true => exact ⟨[], 0, rfl, by simp, by simp⟩
                | false => exact ⟨[], 1, rfl, by simp, by simp⟩
            | succ ups =>
                have hRelative : rooted ≠ true := fun hRooted => by simpa using hUps hRooted
                simp only [List.nil_append, List.replicate_succ, if_true]
                exact ⟨[], ups + 2, rfl, by simp, fun hRooted => absurd hRooted hRelative⟩
      · next hAbove =>
          refine ⟨name :: proper, ups, rfl, fun n hn => ?_, hUps⟩
          cases List.mem_cons.1 hn with
          | inl hHead => exact hHead ▸ ⟨hPlain.1, hPlain.2, hAbove, hName⟩
          | inr hTail => exact hProper n hTail

theorem Walked.foldl_advance {rooted : Bool} {parts walked : List Text}
    (hParts : ∀ part ∈ parts, Byte.slash ∉ part) (h : Walked rooted walked) :
    Walked rooted (parts.foldl (Trail.advance rooted) walked) := by
  induction parts generalizing walked with
  | nil => exact h
  | cons part parts ih =>
      exact ih (fun p hp => hParts p (by simp [hp])) (h.advance (hParts part (by simp)))

/-- Reading a text gives a normal trail. -/
theorem isNormal_ofText (path : Text) : (ofText path).IsNormal := by
  unfold IsNormal ofText
  rw [List.reverse_reverse]
  exact Walked.foldl_advance (Text.splitOn_no_sep _ path) ⟨[], 0, rfl, by simp, by simp⟩

theorem isNormal_of_names (rooted : Bool) {names : List Text} (h : ∀ n ∈ names, IsName n) :
    IsNormal { rooted, names } :=
  ⟨names.reverse, 0, by simp, fun n hn => h n (List.mem_reverse.1 hn), fun _ => rfl⟩

/-- A name of a normal trail is a step up or a proper name. -/
theorem IsNormal.name_cases {t : Trail} (h : t.IsNormal) :
    ∀ n ∈ t.names, n = above ∨ IsName n := by
  obtain ⟨proper, ups, hNames, hProper, -⟩ := h
  intro n hn
  rw [← List.mem_reverse, hNames, List.mem_append, List.mem_replicate] at hn
  rcases hn with hn | hn
  · exact Or.inr (hProper n hn)
  · exact Or.inl hn.2

theorem IsNormal.no_slash {t : Trail} (h : t.IsNormal) : ∀ n ∈ t.names, Byte.slash ∉ n := by
  intro n hn
  rcases h.name_cases n hn with rfl | hName
  · decide
  · exact hName.no_slash

theorem IsNormal.ne_nil {t : Trail} (h : t.IsNormal) : ∀ n ∈ t.names, n ≠ [] := by
  intro n hn
  rcases h.name_cases n hn with rfl | hName
  · decide
  · exact hName.ne_nil

/-- Without a root, steps up are walked one after the other. -/
theorem foldl_advance_above (count walked : Nat) :
    (List.replicate count above).foldl (advance false) (List.replicate walked above) =
      List.replicate (count + walked) above := by
  induction count generalizing walked with
  | zero => simp
  | succ count ih =>
      have hStep : advance false (List.replicate walked above) above =
          List.replicate (walked + 1) above := by
        cases walked <;> simp [advance, above, here, List.replicate_succ]
      rw [List.replicate_succ, List.foldl_cons, hStep, ih]
      congr 1
      omega

/-- The names of a normal trail are walked without any of them being cancelled. -/
theorem IsNormal.foldl_names {t : Trail} (h : t.IsNormal) :
    t.names.foldl (advance t.rooted) [] = t.names.reverse := by
  obtain ⟨proper, ups, hNames, hProper, hUps⟩ := h
  have hSteps : (List.replicate ups above).foldl (advance t.rooted) [] =
      List.replicate ups above := by
    cases hRooted : t.rooted with
    | true => simp [hUps hRooted]
    | false => exact foldl_advance_above ups 0
  have hOrder : t.names = List.replicate ups above ++ proper.reverse := by
    rw [← List.reverse_reverse t.names, hNames]
    simp
  rw [hNames, hOrder, List.foldl_append, hSteps,
    foldl_advance_names fun n hn => hProper n (List.mem_reverse.1 hn)]
  simp

/-! ## Writing and reading -/

theorem toText_ne_nil {t : Trail} (h : t.IsNormal) : t.toText ≠ [] := by
  unfold toText
  split
  · simp
  · decide
  · next names hRelative hNames =>
      cases hList : t.names with
      | nil => exact absurd hList hNames
      | cons n ns =>
          have hFirst := h.ne_nil n (by simp [hList])
          cases ns <;> simp [Text.join, hFirst]

/-- A trail that is not rooted does not begin with a slash. -/
theorem head?_toText {t : Trail} (h : t.IsNormal) :
    (t.toText.head? == some Byte.slash) = t.rooted := by
  unfold toText
  split
  · next hRooted => simp [hRooted]
  · next hRelative _ => rw [hRelative]; decide
  · next names hRelative hNames =>
      cases hList : t.names with
      | nil => exact absurd hList hNames
      | cons n ns =>
          have hMem : n ∈ t.names := by simp [hList]
          cases n with
          | nil => exact absurd rfl (h.ne_nil [] hMem)
          | cons b n =>
              have hSlash : b ≠ Byte.slash := fun hEq =>
                h.no_slash _ hMem (by simp [hEq])
              rw [Text.join_cons_cons, hRelative]
              simpa using hSlash

/-- The parts of a written trail are its names, and others that are passed
over. -/
theorem foldl_splitOn_toText {t : Trail} (h : t.IsNormal) :
    (Text.splitOn Byte.slash t.toText).foldl (advance t.rooted) [] = t.names.reverse := by
  unfold toText
  split
  · next hRooted =>
      rw [Text.splitOn, if_pos rfl, List.foldl_cons, advance_nil, ← h.foldl_names]
      by_cases hNames : t.names = []
      · simp [hNames, Text.join, Text.splitOn, advance_nil]
      · rw [Text.splitOn_join _ hNames h.no_slash]
  · next hNames =>
      rw [hNames, Text.splitOn_of_not_mem (by decide)]
      simp [advance]
  · next names hRelative hNames => rw [Text.splitOn_join _ hNames h.no_slash, h.foldl_names]

/-- A normal trail that is written down is read back. -/
theorem ofText_toText {t : Trail} (h : t.IsNormal) : ofText t.toText = t := by
  unfold ofText
  simp only [head?_toText h, foldl_splitOn_toText h, List.reverse_reverse]

/-- Going on from a path by proper names. -/
theorem ofText_append_names {s : Text} (hText : s ≠ []) {names : List Text} (hNames : names ≠ [])
    (h : ∀ n ∈ names, IsName n) :
    ofText (s ++ Byte.slash :: Text.join [Byte.slash] names) =
      { ofText s with names := (ofText s).names ++ names } := by
  have hHead : (s ++ Byte.slash :: Text.join [Byte.slash] names).head? = s.head? := by
    cases s with
    | nil => exact absurd rfl hText
    | cons b s => rfl
  simp only [ofText, hHead]
  rw [Text.splitOn_append, Text.splitOn_join _ hNames fun n hn => (h n hn).no_slash,
    List.foldl_append, foldl_advance_names h]
  simp

theorem ofText_append_slash {s : Text} (hText : s ≠ []) :
    ofText (s ++ [Byte.slash]) = ofText s := by
  have hHead : (s ++ [Byte.slash]).head? = s.head? := by
    cases s with
    | nil => exact absurd rfl hText
    | cons b s => rfl
  simp only [ofText, hHead]
  rw [Text.splitOn_append, List.foldl_append]
  simp [Text.splitOn, advance_nil]

/-- A further name is written after a slash. -/
theorem toText_concat {t : Trail} (h : t.names ≠ []) (name : Text) :
    toText { t with names := t.names ++ [name] } = t.toText ++ Byte.slash :: name := by
  cases hRooted : t.rooted with
  | true => simp [toText, hRooted, Text.join_concat _ h]
  | false => simp [toText, hRooted, h, Text.join_concat _ h]

/-! ## Parents -/

theorem IsNormal.parent {t : Trail} (h : t.IsNormal) : t.parent.IsNormal := by
  obtain ⟨proper, ups, hNames, hProper, hUps⟩ := h
  have hDrop : t.parent.names.reverse = t.names.reverse.tail := by
    simp [Trail.parent, List.tail_reverse]
  unfold IsNormal
  rw [hDrop, hNames]
  cases proper with
  | cons n proper => exact ⟨proper, ups, rfl, fun m hm => hProper m (by simp [hm]), hUps⟩
  | nil =>
      refine ⟨[], ups - 1, ?_, by simp, fun hRooted => by simp [hUps hRooted]⟩
      simp [List.tail_replicate]

/-- The trail some steps up. -/
def up (t : Trail) : Nat → Trail
  | 0 => t
  | i + 1 => (up t i).parent

theorem up_succ (t : Trail) (i : Nat) : t.up (i + 1) = t.parent.up i := by
  induction i with
  | zero => rfl
  | succ i ih =>
      rw [up, ih]
      rfl

theorem up_up (t : Trail) (i j : Nat) : (t.up i).up j = t.up (i + j) := by
  induction j with
  | zero => rfl
  | succ j ih => rw [up, ih]; rfl

theorem IsNormal.up {t : Trail} (h : t.IsNormal) (i : Nat) : (t.up i).IsNormal := by
  induction i with
  | zero => exact h
  | succ i ih => exact ih.parent

theorem rooted_up (t : Trail) (i : Nat) : (t.up i).rooted = t.rooted := by
  induction i with
  | zero => rfl
  | succ i ih => exact ih

theorem names_up (t : Trail) (i : Nat) :
    (t.up i).names = t.names.take (t.names.length - i) := by
  induction i with
  | zero => simp [up]
  | succ i ih =>
      have hDrop : (t.up (i + 1)).names = (t.up i).names.dropLast := rfl
      rw [hDrop, ih, List.dropLast_eq_take, List.take_take, List.length_take,
        show min (min (t.names.length - i) t.names.length - 1) (t.names.length - i) =
          t.names.length - (i + 1) by omega]

/-- The chain of a trail is the trail and its parents as long as they have a
name. -/
theorem chain_eq_cons {t : Trail} (h : t.names ≠ []) : t.chain = t :: t.parent.chain := by
  obtain ⟨last, rest, hNames⟩ := List.exists_cons_of_ne_nil (mt List.reverse_eq_nil_iff.1 h)
  have hParent : t.parent.names.reverse = rest := by
    rw [parent, ← List.tail_reverse, hNames, List.tail_cons]
  have hWhole : (last :: rest).reverse = t.names := by rw [← hNames, List.reverse_reverse]
  simp only [chain, hParent, hNames, upward, List.map_cons, hWhole]
  rfl

theorem chain_eq_map (t : Trail) : t.chain = (List.range t.names.length).map t.up := by
  induction hLength : t.names.length generalizing t with
  | zero =>
      have hNil : t.names = [] := List.eq_nil_of_length_eq_zero hLength
      simp [chain, hNil, upward]
  | succ n ih =>
      have hNames : t.names ≠ [] := List.ne_nil_of_length_eq_add_one hLength
      have hParent : t.parent.names.length = n := by simp [parent, hLength]
      rw [chain_eq_cons hNames, ih t.parent hParent, List.range_succ_eq_map, List.map_cons,
        List.map_map]
      congr 1
      exact List.map_congr_left fun i _ => (up_succ t i).symm

theorem findSome?_chain_eq_none_iff {α : Type} (f : Trail → Option α) (t : Trail) :
    t.chain.findSome? f = none ↔ ∀ i, i < t.names.length → f (t.up i) = none := by
  simp [chain_eq_map]

/-- A search along the chain finds what it first meets on the way up. -/
theorem findSome?_chain_eq_some_iff {α : Type} (f : Trail → Option α) (t : Trail) (found : α) :
    t.chain.findSome? f = some found ↔
      ∃ i, i < t.names.length ∧ f (t.up i) = some found ∧ ∀ j, j < i → f (t.up j) = none := by
  induction hLength : t.names.length generalizing t with
  | zero =>
      have hNil : t.names = [] := List.eq_nil_of_length_eq_zero hLength
      simp [chain, hNil, upward]
  | succ n ih =>
      have hNames : t.names ≠ [] := List.ne_nil_of_length_eq_add_one hLength
      have hParent : t.parent.names.length = n := by simp [parent, hLength]
      rw [chain_eq_cons hNames, List.findSome?_cons]
      cases hHere : f t with
      | some here =>
          constructor
          · rintro hSame
            exact ⟨0, by omega, hHere.trans hSame, by simp⟩
          · rintro ⟨i, -, hFound, hBefore⟩
            cases i with
            | zero => exact hHere.symm.trans hFound
            | succ i =>
                have hNone := hBefore 0 (by omega)
                exact absurd (hHere.symm.trans hNone) (by simp)
      | none =>
          rw [ih t.parent hParent]
          constructor
          · rintro ⟨i, hi, hFound, hBefore⟩
            refine ⟨i + 1, by omega, by rw [up_succ]; exact hFound, fun j hj => ?_⟩
            cases j with
            | zero => exact hHere
            | succ j => rw [up_succ]; exact hBefore j (by omega)
          · rintro ⟨i, hi, hFound, hBefore⟩
            cases i with
            | zero => exact absurd (hHere.symm.trans hFound) (by simp)
            | succ i =>
                refine ⟨i, by omega, by rw [← up_succ]; exact hFound, fun j hj => ?_⟩
                rw [← up_succ]
                exact hBefore (j + 1) (by omega)

end Trail

namespace Path

/-- The normal form of a normal form is itself. -/
theorem clean_clean (path : Text) : clean (clean path) = clean path := by
  rw [clean, clean, Trail.ofText_toText (Trail.isNormal_ofText path)]

theorem isRooted_clean {path : Text} (h : isRooted path = true) : isRooted (clean path) = true := by
  rw [isRooted, clean, Trail.head?_toText (Trail.isNormal_ofText path)]
  exact h

/-! ## The directory of a path -/

private theorem reverse_no_slash {name : Text} (h : Byte.slash ∉ name) :
    ∀ b ∈ name.reverse, (b != Byte.slash) = true := by
  intro b hb
  rw [bne_iff_ne]
  exact fun hEq => h (hEq ▸ List.mem_reverse.1 hb)

/-- A path with a slash has a last one. -/
theorem exists_last_slash {path : Text} (h : Byte.slash ∈ path) :
    ∃ front name, path = front ++ Byte.slash :: name ∧ Byte.slash ∉ name := by
  obtain ⟨name, front, hRev, hName⟩ := List.eq_append_cons_of_mem (List.mem_reverse.2 h)
  refine ⟨front.reverse, name.reverse, ?_, fun hMem => hName (List.mem_reverse.1 hMem)⟩
  rw [← List.reverse_reverse path, hRev]
  simp

theorem dirTrail_append {s name : Text} (h : Byte.slash ∉ name) :
    dirTrail (s ++ Byte.slash :: name) = Trail.ofText (s ++ [Byte.slash]) := by
  rw [dirTrail, List.reverse_append, List.reverse_cons, List.append_assoc,
    List.dropWhile_append_of_pos (reverse_no_slash h)]
  simp

theorem dirTrail_of_no_slash {name : Text} (h : Byte.slash ∉ name) :
    dirTrail name = Trail.ofText [] := by
  have hAll : name.reverse.dropWhile (· != Byte.slash) = [] := by
    rw [← List.append_nil name.reverse, List.dropWhile_append_of_pos (reverse_no_slash h),
      List.dropWhile_nil]
  rw [dirTrail, hAll]
  rfl

/-- A path and its directory start at the same place. -/
theorem rooted_dirTrail (path : Text) : (dirTrail path).rooted = isRooted path := by
  by_cases hSlash : Byte.slash ∈ path
  · obtain ⟨front, name, rfl, hName⟩ := exists_last_slash hSlash
    rw [dirTrail_append hName]
    cases front <;> rfl
  · rw [dirTrail_of_no_slash hSlash]
    cases path with
    | nil => rfl
    | cons b rest =>
        have hHead : (b == Byte.slash) = false :=
          beq_eq_false_iff_ne.2 fun hEq => hSlash (by simp [hEq])
        exact hHead.symm

/-- The directory of a name inside a directory. -/
theorem dirTrail_toText_append {t : Trail} (h : t.IsNormal) {name : Text}
    (hName : Byte.slash ∉ name) : dirTrail (t.toText ++ Byte.slash :: name) = t := by
  rw [dirTrail_append hName, Trail.ofText_append_slash (Trail.toText_ne_nil h),
    Trail.ofText_toText h]

/-- The directory of a path in normal form has the names of the path but the
last; the topmost directory is its own. -/
theorem dirTrail_toText {t : Trail} (h : t.IsNormal) : dirTrail t.toText = t.parent := by
  rcases List.eq_nil_or_concat t.names with hNil | ⟨front, last, hNames⟩
  · have hSame : t.parent = { rooted := t.rooted, names := [] } := by simp [Trail.parent, hNil]
    rw [hSame]
    cases hRooted : t.rooted with
    | true => simp only [Trail.toText, hRooted, hNil]; decide
    | false => simp only [Trail.toText, hRooted, hNil]; decide
  · rw [List.concat_eq_append] at hNames
    have hLast : Byte.slash ∉ last := h.no_slash last (by simp [hNames])
    have hParent : t.parent = { rooted := t.rooted, names := front } := by
      simp [Trail.parent, hNames]
    by_cases hFront : front = []
    · -- one name only: what is left of the text is the slash in front of it, or nothing
      rw [hParent, hFront]
      cases hRooted : t.rooted with
      | true =>
          have hText : t.toText = [] ++ Byte.slash :: last := by
            simp [Trail.toText, hRooted, hNames, hFront, Text.join]
          rw [hText, dirTrail_append hLast]
          decide
      | false =>
          have hText : t.toText = last := by
            simp [Trail.toText, hRooted, hNames, hFront, Text.join]
          rw [hText, dirTrail_of_no_slash hLast]
          decide
    · have hText : t.toText = t.parent.toText ++ Byte.slash :: last := by
        have hWhole : t = { t.parent with names := t.parent.names ++ [last] } := by
          cases t
          simp_all [Trail.parent]
        rw [hWhole, Trail.toText_concat (by rw [hParent]; exact hFront), ← hWhole]
      rw [hText, dirTrail_toText_append h.parent hLast]

/-- The directory of a path, the directory of that, and so on up. -/
def ascent (path : Text) : Nat → Text
  | 0 => dir path
  | i + 1 => dir (ascent path i)

/-- The directories above a path are the parents of its first one. -/
theorem ascent_eq (path : Text) (i : Nat) : ascent path i = ((dirTrail path).up i).toText := by
  have hNormal : (dirTrail path).IsNormal := Trail.isNormal_ofText _
  induction i with
  | zero => rfl
  | succ i ih => rw [ascent, dir, ih, dirTrail_toText (hNormal.up i)]; rfl

end Path

end DottedNames
