import DottedNames.Source.Outline
import DottedNames.Text.Lines

/-!
# Line endings

A text may end its lines with a newline or with a carriage return and a newline, and it
may have carriage returns anywhere else. `Text.lines` cuts at the newlines and takes one
carriage return from the end of each part. This file says what that makes of any text:
`withoutReturns` takes the same carriage returns away in one pass over the text, before
anything is cut, and the lines are the parts of what is left. Of several carriage
returns in a row at the end of a line only the last goes, and one inside a line stays.

Two facts carry everything. A text is cut at a newline wherever it stands, which gives
the lines of a joined document by induction on the document. And a part is empty exactly
when a line ends in front of it, which is how one pass can know that a carriage return
is the last of its part.

## Main results

* `Text.lines_join` — joining with either ending and cutting gives a document back.
* `Text.lines_eq_splitOn` — the lines of any text.
* `line_endings_are_undone` — both, with the lines counted and what they join to; and
  the ending makes no difference to elements and outlines.
-/

namespace DottedNames

namespace Text

/-- What may stand between a line and its newline. -/
def returns : List Text := [[], [Byte.carriageReturn]]

/-- A text that can be a line of a document whatever ends the lines there. -/
structure IsLine (line : Text) : Prop where
  no_newline : Byte.newline ∉ line
  no_return : ¬ [Byte.carriageReturn] <:+ line

/-- Whether a line ends in front of a text: at a newline or at the end of it all. -/
def endsLine : Text → Bool
  | [] => true
  | b :: _ => b == Byte.newline

/-- The text without the carriage return that each line may end in, one at each end of a
line. -/
def withoutReturns : Text → Text
  | [] => []
  | b :: s =>
    if b = Byte.carriageReturn ∧ endsLine s = true then withoutReturns s
    else b :: withoutReturns s

/-! ## Joined documents -/

/-- A text is cut at a newline wherever it stands. -/
theorem lines_append_newline (s t : Text) :
    lines (s ++ Byte.newline :: t) = lines s ++ lines t := by
  rw [lines, lines, lines, splitOn_append, List.map_append]

/-- A line is one line with a carriage return at its end and without. -/
theorem lines_of_isLine {line ret : Text} (h : IsLine line) (hRet : ret ∈ returns) :
    lines (line ++ ret) = [line] := by
  have hReturn : ret = [] ∨ ret = [Byte.carriageReturn] := by simpa [returns] using hRet
  have hNewline : Byte.newline ∉ line ++ ret := by
    rw [List.mem_append, not_or]
    refine ⟨h.no_newline, ?_⟩
    rcases hReturn with rfl | rfl <;> decide
  have hTrim : trimSuffix [Byte.carriageReturn] (line ++ ret) = line := by
    rcases hReturn with rfl | rfl
    · rw [List.append_nil, trimSuffix_of_not_suffix h.no_return]
    · exact trimSuffix_append line _
  rw [lines, splitOn_of_not_mem hNewline, List.map_singleton, hTrim]

/-- A document that is joined with either ending, with or without a carriage return at the
very end, is cut into its lines again. -/
theorem lines_join {doc : Document} {ret last : Text} (hDoc : doc ≠ [])
    (h : ∀ line ∈ doc, IsLine line) (hRet : ret ∈ returns) (hLast : last ∈ returns) :
    lines (join (ret ++ [Byte.newline]) doc ++ last) = doc := by
  induction doc with
  | nil => exact absurd rfl hDoc
  | cons line doc ih =>
      have hLine : IsLine line := h line (by simp)
      by_cases hMore : doc = []
      · subst hMore
        exact lines_of_isLine hLine hLast
      · have hRest := ih hMore fun l hl => h l (List.mem_cons_of_mem line hl)
        have hText : join (ret ++ [Byte.newline]) (line :: doc) ++ last =
            (line ++ ret) ++ Byte.newline :: (join (ret ++ [Byte.newline]) doc ++ last) := by
          rw [join_cons _ _ hMore]
          simp
        rw [hText, lines_append_newline, lines_of_isLine hLine hRet, hRest,
          List.singleton_append]

/-! ## The lines of any text -/

/-- A byte in front of a part stays, unless it is a carriage return that is the whole
part. -/
theorem trimReturn_cons {b : UInt8} {part : Text}
    (h : b = Byte.carriageReturn → part ≠ []) :
    trimSuffix [Byte.carriageReturn] (b :: part) =
      b :: trimSuffix [Byte.carriageReturn] part := by
  by_cases hEnd : [Byte.carriageReturn] <:+ part
  · obtain ⟨rest, rfl⟩ := hEnd
    rw [trimSuffix_append, ← List.cons_append, trimSuffix_append]
  · have hNoEnd : ¬ [Byte.carriageReturn] <:+ b :: part := by
      rw [List.suffix_cons_iff, not_or]
      refine ⟨?_, hEnd⟩
      intro hWhole
      obtain ⟨hByte, hNil⟩ := List.cons.inj hWhole
      exact h hByte.symm hNil.symm
    rw [trimSuffix_of_not_suffix hNoEnd, trimSuffix_of_not_suffix hEnd]

/-- The first part of a text is empty exactly when a line ends in front of the text. -/
theorem part_eq_nil_iff {s part : Text} {parts : List Text}
    (h : splitOn Byte.newline s = part :: parts) : part = [] ↔ endsLine s = true := by
  cases s with
  | nil =>
      obtain ⟨rfl, -⟩ := List.cons.inj h
      simp [endsLine]
  | cons b s =>
      by_cases hNewline : b = Byte.newline
      · rw [splitOn, if_pos hNewline] at h
        obtain ⟨rfl, -⟩ := List.cons.inj h
        simp [endsLine, hNewline]
      · obtain ⟨_, _, -, hCut⟩ := exists_splitOn_cons hNewline s
        rw [hCut] at h
        obtain ⟨rfl, -⟩ := List.cons.inj h
        simp [endsLine, hNewline]

/-- The lines of a text are what newlines cut it into once the carriage returns at the
ends of lines are gone. -/
theorem lines_eq_splitOn (s : Text) : lines s = splitOn Byte.newline (withoutReturns s) := by
  induction s with
  | nil => rfl
  | cons b s ih =>
      by_cases hNewline : b = Byte.newline
      · have hCut := lines_append_newline [] s
        have hOther : Byte.newline ≠ Byte.carriageReturn := by decide
        rw [List.nil_append] at hCut
        subst hNewline
        rw [hCut, ih, withoutReturns, if_neg fun hBoth => hOther hBoth.1, splitOn, if_pos rfl]
        rfl
      · obtain ⟨part, parts, hParts, hCut⟩ := exists_splitOn_cons hNewline s
        have hRest : lines s = trimSuffix [Byte.carriageReturn] part ::
            parts.map (trimSuffix [Byte.carriageReturn]) := by
          rw [lines, hParts, List.map_cons]
        rw [lines, hCut, List.map_cons, withoutReturns]
        split
        · next hReturn =>
            -- The carriage return is a part of its own, and an empty line is left of it.
            have hPart : part = [] := (part_eq_nil_iff hParts).2 hReturn.2
            have hTrim : trimSuffix [Byte.carriageReturn] (b :: part) = [] := by
              rw [hReturn.1, hPart]
              exact trimSuffix_append [] _
            rw [hTrim, ← ih, hRest, hPart]
            rfl
        · next hOther =>
            have hKept := trimReturn_cons fun hByte hPart =>
              hOther ⟨hByte, (part_eq_nil_iff hParts).1 hPart⟩
            rw [hKept, splitOn, if_neg hNewline, ← ih, hRest]

/-- Joined with newlines, the lines are the text without its carriage returns at the ends
of lines. -/
theorem join_lines (s : Text) : join [Byte.newline] (lines s) = withoutReturns s := by
  rw [lines_eq_splitOn, join_splitOn]

theorem lines_eq_iff (s t : Text) : lines s = lines t ↔ withoutReturns s = withoutReturns t := by
  constructor
  · intro h
    rw [← join_lines, h, join_lines]
  · intro h
    rw [lines_eq_splitOn, h, lines_eq_splitOn]

theorem length_lines (s : Text) : (lines s).length = s.count Byte.newline + 1 := by
  rw [lines, List.length_map, length_splitOn]

end Text

/-- Cutting a text into lines undoes the joining of them, for both endings. A document
whose lines hold no newline and end in no carriage return is given back from its lines
joined with either ending, with a carriage return at the very end or without. Every text
has one line more than newlines and no newline in a line, and its lines joined with
newlines are the text without one carriage return before each newline and at the end,
where there was one; so just the texts that are alike without these have the same lines.
A document has the same outline and the same elements with both endings. -/
theorem line_endings_are_undone :
    (∀ doc : Document, doc ≠ [] → (∀ line ∈ doc, Text.IsLine line) →
      ∀ ret ∈ Text.returns, ∀ last ∈ Text.returns,
        Text.lines (Text.join (ret ++ [Byte.newline]) doc ++ last) = doc) ∧
      (∀ s : Text, Text.lines s ≠ [] ∧ (Text.lines s).length = s.count Byte.newline + 1 ∧
        (∀ line ∈ Text.lines s, Byte.newline ∉ line) ∧
        Text.join [Byte.newline] (Text.lines s) = Text.withoutReturns s) ∧
      (∀ s t : Text, Text.lines s = Text.lines t ↔
        Text.withoutReturns s = Text.withoutReturns t) ∧
      ∀ doc : Document, doc ≠ [] → (∀ line ∈ doc, Text.IsLine line) →
        ∀ last ∈ Text.returns, ∀ (view : View) (path : Text),
          Document.outline view
              (Text.lines (Text.join [Byte.carriageReturn, Byte.newline] doc ++ last)) path =
            Document.outline view (Text.lines (Text.join [Byte.newline] doc)) path ∧
          ∀ index,
            Document.elementAt view
                (Text.lines (Text.join [Byte.carriageReturn, Byte.newline] doc ++ last)) index
                path =
              Document.elementAt view (Text.lines (Text.join [Byte.newline] doc)) index path := by
  refine ⟨?_, ?_, Text.lines_eq_iff, ?_⟩
  · intro doc hDoc hLines ret hRet last hLast
    exact Text.lines_join hDoc hLines hRet hLast
  · intro s
    exact ⟨Text.lines_ne_nil s, Text.length_lines s, Text.newline_not_mem s, Text.join_lines s⟩
  · intro doc hDoc hLines last hLast view path
    have hNone : [] ∈ Text.returns := by decide
    have hOne : [Byte.carriageReturn] ∈ Text.returns := by decide
    have hReturns : Text.lines (Text.join [Byte.carriageReturn, Byte.newline] doc ++ last) = doc :=
      Text.lines_join hDoc hLines hOne hLast
    have hNewlines : Text.lines (Text.join [Byte.newline] doc) = doc := by
      have hPlain := Text.lines_join hDoc hLines hNone hNone
      rwa [List.append_nil] at hPlain
    rw [hReturns, hNewlines]
    exact ⟨rfl, fun _ => rfl⟩

/-- A class, an empty line, a method with a carriage return inside, and an empty last
line, with a carriage return at every end of a line. -/
theorem line_endings_of_method :
    let doc := [text "class A:", [], text "\tdef\rf():", []]
    let written := text "class A:\r\n\r\n\tdef\rf():\r\n\r"
    Text.lines written = doc ∧ (Text.lines written).length = 4 ∧
      (Document.elementAt {} (Text.lines written) 2 (text "/w/a.py")).qualifiedPath =
        text "a.A.f" := by
  intro doc written
  have hLines : ∀ line ∈ doc, Text.IsLine line := by
    have hEach : ∀ line ∈ doc, Byte.newline ∉ line ∧ ¬ [Byte.carriageReturn] <:+ line := by decide
    exact fun line hMem => ⟨(hEach line hMem).1, (hEach line hMem).2⟩
  have hOne : [Byte.carriageReturn] ∈ Text.returns := by decide
  have hBack := line_endings_are_undone.1 doc (by decide) hLines _ hOne _ hOne
  have hWritten : written =
      Text.join ([Byte.carriageReturn] ++ [Byte.newline]) doc ++ [Byte.carriageReturn] := by
    decide +kernel
  rw [← hWritten] at hBack
  refine ⟨hBack, ?_, ?_⟩
  · rw [(line_endings_are_undone.2.1 written).2.1]
    decide +kernel
  · rw [hBack]
    decide +kernel

end DottedNames
