import DottedNames.Proofs.SourceReports

/-!
# Lines given and shown

A report of a line begins with the number of the line. The line inside is one less than
the number it was given by, and showing it adds one again; as the largest number that
is accepted is the largest of 64 bits, neither step wraps around. So the number comes
out in its one canonical spelling, whatever spelling it came in.

A file argument with the shape of a flag is taken for a flag, so to that one no line
number is shown unless the flags are ended before it.

## Main results

* `finish_element_begins` — a report begins with the number, in any spelling of the
  arguments.
* `line_numbers_are_kept` — which texts are read as a line, and that the number is shown
  as it was read.
* `flag_like_file_shows_no_line` — the file to which the plain spelling does not apply.
-/

namespace DottedNames

namespace CommandLine

open Numeral (IsNumeral)

/-- The report of a line begins with the number that the line was given by. -/
theorem finish_element_begins {view : View} {file content line : Text} {arguments : List Text}
    {n : Nat} (hPython : Path.isPython (Path.absolute view.current file) = true)
    (hRead : view.read (Path.absolute view.current file) = .ok content)
    (hNumeral : IsNumeral line n) (hOne : 1 ≤ n) (hFits : n ≤ 2 ^ 63 - 1)
    (hLooks : LooksAt .element .line file line arguments) :
    ∃ rest, (run { view } arguments).finish =
      { output := Text.decimal n ++ Byte.tab :: rest } := by
  have hFinish := finish_element (findSource_of_read hPython hRead)
    (readLine_of_isNumeral hNumeral hOne hFits) hLooks
  rw [toRecord_locatedAt (by omega), Nat.sub_add_cancel hOne] at hFinish
  rw [hFinish]
  simp only [Text.join, List.append_assoc, List.singleton_append]
  exact ⟨_, rfl⟩

/-- Line numbers in and out. A text is read as a line exactly when it is digits with an
optional sign whose value lies between one and the largest number of 64 bits, and the line
is that value less one. For every such text and every readable Python file, the report of
the line begins with the value in decimal: with the plain arguments when the file does not
have the shape of a flag, and behind the end of flags for every file. -/
theorem line_numbers_are_kept :
    (∀ (argument : Text) (index : Int64), readLine argument = .ok index ↔
      ∃ n : Nat, IsNumeral argument n ∧ 1 ≤ n ∧ n ≤ 2 ^ 63 - 1 ∧ index.toInt = n - 1) ∧
      ∀ (view : View) (file content line : Text) (n : Nat),
        Path.isPython (Path.absolute view.current file) = true →
        view.read (Path.absolute view.current file) = .ok content →
        IsNumeral line n → 1 ≤ n → n ≤ 2 ^ 63 - 1 →
          (¬ IsFlag file → ∃ rest,
            (run { view } [text "element", file, line, text "--format", text "line"]).finish =
              { output := Text.decimal n ++ Byte.tab :: rest }) ∧
          ∃ rest,
            (run { view }
                [text "element", text "--format", text "line", text "--", file, line]).finish =
              { output := Text.decimal n ++ Byte.tab :: rest } := by
  refine ⟨fun argument index => readLine_eq_ok_iff, ?_⟩
  intro view file content line n hPython hRead hNumeral hOne hFits
  refine ⟨?_, ?_⟩
  · intro hFile
    have hLine : ¬ IsFlag line :=
      not_isFlag_of_readLine (readLine_of_isNumeral hNumeral hOne hFits)
    have hWords : ∀ word ∈ Command.wordsFor .element file line, ¬ IsFlag word := by
      have hBoth : Command.wordsFor .element file line = [file, line] := rfl
      rw [hBoth]
      simpa using ⟨hFile, hLine⟩
    exact finish_element_begins hPython hRead hNumeral hOne hFits
      (looksAt_format_last rfl rfl hWords)
  · exact finish_element_begins hPython hRead hNumeral hOne hFits (looksAt_format_first rfl rfl)

/-- A line with a sign and zeros in front; and the last line there can be, of a file that is
named like a flag. -/
theorem line_numbers_of_odd_spellings :
    (∃ rest, (run { view := sampleView }
        [text "element", text "a.py", text "+002", text "--format", text "line"]).finish =
      { output := text "2" ++ Byte.tab :: rest }) ∧
      ∃ rest, (run { view := sampleView }
          [text "element", text "--format", text "line", text "--", text "-a.py",
            text "09223372036854775807"]).finish =
        { output := text "9223372036854775807" ++ Byte.tab :: rest } := by
  have hSecondDigits : Numeral.IsDigits (text "002") := ⟨by decide, by decide +kernel⟩
  have hLastDigits : Numeral.IsDigits (text "09223372036854775807") :=
    ⟨by decide, by decide +kernel⟩
  have hSecond : IsNumeral (text "+002") (2 : Nat) := .plus hSecondDigits
  have hLast : IsNumeral (text "09223372036854775807") (9223372036854775807 : Nat) :=
    .plain hLastDigits
  have hPlain := (line_numbers_are_kept.2 sampleView (text "a.py") _ _ _ (by decide) rfl
    hSecond (by decide) (by decide)).1 (by decide)
  have hBehind := (line_numbers_are_kept.2 sampleView (text "-a.py") _ _ _ (by decide) rfl
    hLast (by decide) (by decide)).2
  have hTwo : Text.decimal 2 = text "2" := by decide +kernel
  have hLargest : Text.decimal 9223372036854775807 = text "9223372036854775807" := by
    decide +kernel
  refine ⟨?_, ?_⟩
  · rw [hTwo] at hPlain
    exact hPlain
  · rw [hLargest] at hBehind
    exact hBehind

/-- A readable Python file with the shape of a flag. With the plain arguments the command
line refuses it, although the line is one. -/
theorem flag_like_file_shows_no_line :
    Path.isPython (Path.absolute sampleView.current (text "-a.py")) = true ∧
      sampleView.read (Path.absolute sampleView.current (text "-a.py")) = .ok (text "x = 1") ∧
      readLine (text "1") = .ok 0 ∧
      (run { view := sampleView }
          [text "element", text "-a.py", text "1", text "--format", text "line"]).finish =
        { exit := 1, output := [],
          errorOutput := text "Error: unknown shorthand flag: 'a' in -a.py\n" } := by
  refine ⟨by decide, rfl, rfl, ?_⟩
  decide +kernel

end CommandLine

end DottedNames
