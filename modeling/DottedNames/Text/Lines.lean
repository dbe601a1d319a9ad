import DottedNames.Text.Basic

/-!
# Lines of a text

A text is cut into lines the way an editor presents them: at every newline,
without the newline, and without one carriage return at the end of a line.
The empty text is one empty line, and a text that ends in a newline has an
empty last line.

## Main results

* `splitOn_no_sep` — no part of a cut text holds the separator.
* `lines_ne_nil` — every text has at least one line.
* `newline_not_mem` — no line holds a newline.
-/

namespace DottedNames

/-- The lines of a document, first line first. -/
abbrev Document := List Text

namespace Text

/-- The lines of a text. -/
def lines (s : Text) : Document :=
  (splitOn Byte.newline s).map (trimSuffix [Byte.carriageReturn])

theorem splitOn_no_sep (sep : UInt8) (s : Text) : ∀ part ∈ splitOn sep s, sep ∉ part := by
  induction s with
  | nil => simp [splitOn]
  | cons b s ih =>
      by_cases hSep : b = sep
      · rw [splitOn, if_pos hSep, List.forall_mem_cons]
        exact ⟨List.not_mem_nil, ih⟩
      · obtain ⟨part, parts, hParts, hCut⟩ := exists_splitOn_cons hSep s
        rw [hParts, List.forall_mem_cons] at ih
        rw [hCut, List.forall_mem_cons]
        refine ⟨?_, ih.2⟩
        simp only [List.mem_cons, not_or]
        exact ⟨fun hEq => hSep hEq.symm, ih.1⟩

theorem mem_of_mem_trimSuffix {b : UInt8} {suffix s : Text} (h : b ∈ trimSuffix suffix s) :
    b ∈ s := by
  unfold trimSuffix at h
  split at h
  · exact List.mem_of_mem_take h
  · exact h

/-- Every text has at least one line. -/
theorem lines_ne_nil (s : Text) : lines s ≠ [] := by
  simpa [lines] using splitOn_ne_nil Byte.newline s

/-- No line holds a newline. -/
theorem newline_not_mem (s : Text) : ∀ line ∈ lines s, Byte.newline ∉ line := by
  intro line hLine
  obtain ⟨part, hPart, rfl⟩ := List.mem_map.1 hLine
  exact fun h => splitOn_no_sep _ s part hPart (mem_of_mem_trimSuffix h)

end Text

end DottedNames
