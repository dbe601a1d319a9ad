import DottedNames.Proofs.Attribution
import DottedNames.Proofs.FrontEnds
import DottedNames.Proofs.LineArguments
import Mathlib.Data.List.Basic

/-!
# The commands about a source file

Four commands look at a source file. Two print one thing about a line, one reports
all about a line, and one reports the whole file. They find the file in the same
way, `findSource`, and fail in the same way when there is none. Where there is one,
the report of a line is made of what the two plain commands print, and the report of
the file is made of the reports of its lines, those left out that define nothing.

How the arguments are spelt does not matter: `LooksAt` asks only that they make the
command run on the file and the line, with the format that is wanted.

## Main results

* `looksAt_words`, `looksAt_format_last` — the plainest spellings; `looksAt_after_end`,
  `looksAt_format_first` — those that do for every file.
* `run_of_looksAt` — the commands over one search for the file.
* `report_outline` — the report of a file, line by line.
* `source_commands_agree` — the four commands side by side.
-/

namespace DottedNames

namespace CommandLine

/-! ## Spellings -/

namespace Command

/-- The commands that look at a source file. -/
def onSource : List Command := [.path, .importStatement, .element, .scan]

/-- The words that give a command a file and, where it takes one, a line. -/
def wordsFor (command : Command) (file line : Text) : List Text :=
  [file, line].take (command.arity?.getD 0)

/-- The name of the format in which a command reports unless it is told another. -/
def usualFormat? : Command → Option Text
  | .element => some (text "json")
  | .scan => some (text "line")
  | _ => none

end Command

/-- The arguments make a command look at a line of a file and, when it makes a
report, report in a format. -/
def LooksAt (command : Command) (format : Format) (file line : Text) (arguments : List Text) :
    Prop :=
  ∃ r, Invokes command r arguments ∧ r.words = command.wordsFor file line ∧
    ∀ name ∈ command.usualFormat?, chosenFormat r name = .ok format

theorem readFrom_format {command : Command} (hReports : command.usualFormat?.isSome = true)
    (r : Reading) (name : Text) (rest : List Text) :
    readFrom command.flags r (text "--format" :: name :: rest) =
      readFrom command.flags (r.addValue (text "format") (.text name)) rest := by
  cases command with
  | element | scan => rfl
  | path | importStatement | projectRoot | serve | help | completion =>
      exact absurd hReports (by decide)

theorem looksAt_name {command : Command} (hSource : command ∈ Command.onSource) {format : Format}
    {file line : Text} {arguments : List Text} {r : Reading}
    (hRead : readFlags command.flags arguments = .ok r) (hHelp : r.isOn (text "help") = false)
    (hWords : r.words = command.wordsFor file line)
    (hFormat : ∀ usual ∈ command.usualFormat?, chosenFormat r usual = .ok format) :
    LooksAt command format file line (command.name :: arguments) := by
  refine ⟨r, invokes_name hRead hHelp ?_, hWords, hFormat⟩
  rw [hWords]
  cases command with
  | path | importStatement | element | scan => rfl
  | projectRoot | serve | help | completion => exact absurd hSource (by decide)

theorem chosenFormat_of_usual {usual : Text} {format : Format}
    (hUsual : Format.ofName? usual = some format) (words : List Text) :
    chosenFormat { words } usual = .ok format := by
  simp [chosenFormat, Reading.textOf, Reading.value?, hUsual]

theorem chosenFormat_of_value {name : Text} {format : Format}
    (hName : Format.ofName? name = some format) (r : Reading) (usual : Text) :
    chosenFormat (r.addValue (text "format") (.text name)) usual = .ok format := by
  have hText : (r.addValue (text "format") (.text name)).textOf (text "format") usual = name := by
    simp [Reading.textOf, Reading.value?, Reading.addValue]
  simp [chosenFormat, hText, hName]

/-- A file that does not look like a flag and the line, in the usual format. -/
theorem looksAt_words {command : Command} (hSource : command ∈ Command.onSource) {format : Format}
    {file line : Text} (hUsual : ∀ usual ∈ command.usualFormat?, Format.ofName? usual = some format)
    (hWords : ∀ word ∈ command.wordsFor file line, ¬ IsFlag word) :
    LooksAt command format file line (command.name :: command.wordsFor file line) := by
  refine looksAt_name hSource ?_ rfl rfl fun usual hMem =>
    chosenFormat_of_usual (hUsual usual hMem) (command.wordsFor file line)
  rw [readFlags, readFrom_words _ _ hWords]
  rfl

/-- Behind the end of flags a file of any shape and the line, in the usual format. -/
theorem looksAt_after_end {command : Command} (hSource : command ∈ Command.onSource)
    {format : Format} {file line : Text}
    (hUsual : ∀ usual ∈ command.usualFormat?, Format.ofName? usual = some format) :
    LooksAt command format file line
      (command.name :: endOfFlags :: command.wordsFor file line) := by
  refine looksAt_name hSource ?_ rfl rfl fun usual hMem =>
    chosenFormat_of_usual (hUsual usual hMem) (command.wordsFor file line)
  rw [readFlags, readFrom_endOfFlags]
  rfl

theorem mem_onSource {command : Command} (h : command.usualFormat?.isSome = true) :
    command ∈ Command.onSource := by
  cases command with
  | path | importStatement | element | scan => decide
  | projectRoot | serve | help | completion => exact absurd h (by decide)

/-- A file that does not look like a flag, the line, and then the format. -/
theorem looksAt_format_last {command : Command} (hReports : command.usualFormat?.isSome = true)
    {file line name : Text} {format : Format} (hName : Format.ofName? name = some format)
    (hWords : ∀ word ∈ command.wordsFor file line, ¬ IsFlag word) :
    LooksAt command format file line
      (command.name :: (command.wordsFor file line ++ [text "--format", name])) := by
  refine looksAt_name (mem_onSource hReports) ?_ rfl rfl fun usual _ =>
    chosenFormat_of_value hName { words := command.wordsFor file line } usual
  rw [readFlags, readFrom_words_append _ _ hWords, readFrom_format hReports]
  rfl

/-- The format, and behind the end of flags a file of any shape and the line. -/
theorem looksAt_format_first {command : Command} (hReports : command.usualFormat?.isSome = true)
    {file line name : Text} {format : Format} (hName : Format.ofName? name = some format) :
    LooksAt command format file line
      (command.name :: text "--format" :: name :: endOfFlags :: command.wordsFor file line) := by
  refine looksAt_name (mem_onSource hReports) ?_ rfl rfl fun usual _ =>
    chosenFormat_of_value hName { words := command.wordsFor file line } usual
  rw [readFlags, readFrom_format hReports, readFrom_endOfFlags]
  rfl

/-! ## Finding the file -/

/-- The lines of the Python file that an argument names. -/
def findSource (view : View) (file : Text) : Except Failure Document := do
  readDocument view (← pythonFile view file)

theorem findSource_of_read {view : View} {file content : Text}
    (hPython : Path.isPython (Path.absolute view.current file) = true)
    (hRead : view.read (Path.absolute view.current file) = .ok content) :
    findSource view file = .ok (Text.lines content) := by
  simp [findSource, pythonFile, hPython, readDocument, hRead, bind, Except.bind]

/-- Without a readable Python file the failure is one that is reported by its
message alone. -/
theorem findSource_of_not_read {view : View} {file : Text}
    (h : Path.isPython (Path.absolute view.current file) = false ∨
      ∃ failure, view.read (Path.absolute view.current file) = .error failure) :
    ∃ failure : Failure, findSource view file = .error failure ∧
      failure.report = text "Error: " ++ failure.message ++ [Byte.newline] := by
  by_cases hPython : Path.isPython (Path.absolute view.current file) = true
  · obtain hNot | ⟨cause, hRead⟩ := h
    · exact absurd hPython (by simp [hNot])
    · refine ⟨.unreadable cause, ?_, by simp [Failure.report]⟩
      simp [findSource, pythonFile, hPython, readDocument, hRead, bind, Except.bind]
  · refine ⟨.notPython file, ?_, by simp [Failure.report]⟩
    simp [findSource, pythonFile, hPython, bind, Except.bind]

/-- What there is at a line of the file that an argument names. -/
def locatedAt (view : View) (file : Text) (index : Int64) (doc : Document) : Located :=
  { line := index
    element := Document.elementAt view doc index (Path.absolute view.current file) }

theorem elementAt_eq_map {view : View} {file line : Text} {index : Int64}
    (hLine : readLine line = .ok index) :
    elementAt view file line = (findSource view file).map (locatedAt view file index) := by
  by_cases hPython : Path.isPython (Path.absolute view.current file) = true
  · simp only [elementAt, findSource, pythonFile, hPython, if_true, hLine, bind, Except.bind]
    cases readDocument view (Path.absolute view.current file) <;> rfl
  · simp [elementAt, findSource, pythonFile, hPython, bind, Except.bind, Except.map]

/-! ## The commands over one search -/

variable {view : View} {format : Format} {file line : Text} {index : Int64}
  {arguments : List Text}

/-- How a command goes on when it has found the file. -/
def continuation (view : View) (command : Command) (format : Format) (file : Text) (index : Int64)
    (doc : Document) : Ending :=
  let found := locatedAt view file index doc
  match command with
  | .path => .printed (found.element.qualifiedPath ++ [Byte.newline])
  | .importStatement => .printed (found.element.importStatement ++ [Byte.newline])
  | .element => .printed (format.written [found])
  | _ => .printed (format.written (Document.outline view doc (Path.absolute view.current file)))

/-- The commands that look at a source file find it first, all in the same way. -/
theorem run_of_looksAt {command : Command} (hSource : command ∈ Command.onSource)
    (hLine : readLine line = .ok index) (h : LooksAt command format file line arguments) :
    run { view } arguments =
      orFail (findSource view file) (continuation view command format file index) := by
  obtain ⟨r, hInvokes, hWords, hFormat⟩ := h
  rw [run_of_invokes _ hInvokes]
  cases command with
  | path | importStatement =>
      have hTwo : r.words = [file, line] := hWords
      simp only [runCommand, hTwo, elementAt_eq_map hLine]
      cases findSource view file <;> rfl
  | element =>
      have hTwo : r.words = [file, line] := hWords
      simp only [runCommand, hTwo, elementAt_eq_map hLine, hFormat _ rfl]
      cases findSource view file <;> rfl
  | scan =>
      have hOne : r.words = [file] := hWords
      simp only [runCommand, hOne, hFormat _ rfl, findSource, pythonFile]
      by_cases hPython : Path.isPython (Path.absolute view.current file) = true
      · simp only [hPython, if_true, orFail, bind, Except.bind]
        cases readDocument view (Path.absolute view.current file) <;> rfl
      · simp [hPython, orFail, bind, Except.bind]
  | projectRoot | serve | help | completion => exact absurd hSource (by decide)

/-! ## Reports -/

/-- The field of a record that says of which kind it is. -/
def kindShown (record : Text) : Option Text := (Text.splitOn Byte.tab record)[1]?

/-- A record, or nothing where its kind is that of the module. -/
def unlessModule (record : Text) : Text :=
  if kindShown record = some (text "module") then [] else record

theorem tab_not_mem_decimal (n : Nat) : Byte.tab ∉ Text.decimal n := fun hMem =>
  absurd (Text.isDigit_of_mem_decimal n _ hMem) (by decide)

theorem tab_not_mem_word (kind : Kind) : Byte.tab ∉ kind.word := by
  cases kind <;> decide

theorem kindShown_record (n : Nat) (kind : Kind) (path statement : Text) :
    kindShown (Text.join [Byte.tab] [Text.decimal n, kind.word, path, statement] ++
      [Byte.newline]) = some kind.word := by
  have hRecord : Text.join [Byte.tab] [Text.decimal n, kind.word, path, statement] ++
      [Byte.newline] = Text.decimal n ++ Byte.tab :: (kind.word ++ Byte.tab ::
        (path ++ Byte.tab :: (statement ++ [Byte.newline]))) := by
    simp [Text.join]
  rw [hRecord, kindShown, Text.splitOn_append, Text.splitOn_append,
    Text.splitOn_of_not_mem (tab_not_mem_decimal n),
    Text.splitOn_of_not_mem (tab_not_mem_word kind)]
  rfl

/-- A line is of the kind of the whole module when nothing is named on it. -/
theorem kind_word_eq_module_iff (e : Element) :
    e.kind.word = text "module" ↔ e.toNames.isEmpty = true := by
  have hWord : ∀ kind : Kind, kind.word = text "module" ↔ kind = .wholeModule := by
    intro kind
    cases kind <;> decide
  rw [hWord]
  unfold Element.kind Names.isEmpty
  cases e.className <;> cases e.functionName <;> cases e.constantName <;> simp

theorem toRecord_locatedAt {n : Nat} (h : n + 1 < 2 ^ 63) (doc : Document) :
    (locatedAt view file (Int64.ofNat n) doc).toRecord =
      let e := Document.elementAt view doc (Int64.ofNat n) (Path.absolute view.current file)
      Text.join [Byte.tab]
        [Text.decimal (n + 1), e.kind.word, e.qualifiedPath, e.importStatement] ++
          [Byte.newline] := by
  rw [Located.toRecord, locatedAt, Located.integer_shownLine h]

/-- The report of a file is made of the records of its lines, those left out that
are of the kind of the module. -/
theorem report_outline {doc : Document} (hLength : doc.length < 2 ^ 63) :
    Format.line.written (Document.outline view doc (Path.absolute view.current file)) =
      (List.range doc.length).flatMap fun n =>
        unlessModule (locatedAt view file (Int64.ofNat n) doc).toRecord := by
  simp only [Format.written, Format.report, Document.outline, List.filterMap_eq_flatMap_toList,
    List.flatMap_assoc]
  apply congrArg List.flatten
  apply List.map_congr_left
  intro n hMem
  have hLine : n + 1 < 2 ^ 63 := by
    have hInside := List.mem_range.1 hMem
    omega
  have hNames : Document.namesAtIndex doc (Int64.ofNat n) = Document.namesAt doc n :=
    Document.namesAtIndex_of_toInt (Int64.toInt_ofNat_of_lt (Nat.lt_of_succ_lt hLine))
  have hKind : kindShown (locatedAt view file (Int64.ofNat n) doc).toRecord =
      some (text "module") ↔ (Document.namesAt doc n).isEmpty = true := by
    rw [toRecord_locatedAt hLine, kindShown_record, Option.some_inj, kind_word_eq_module_iff,
      Document.elementAt, hNames]
  simp only [unlessModule, hKind]
  split
  · rfl
  · simp [locatedAt, Document.elementAt, hNames]

/-! ## Agreement -/

/-- What the commands print about a source file with given lines. -/
structure ReportsAgree (view : View) (file : Text) (doc : Document) : Prop where
  /-- The record of a line, counted from one, is its number, its kind, and what the
  two plain commands print. -/
  record {n : Nat} {index : Int64} {format : Format} {pathCall importCall elementCall : List Text} :
    readLine (Text.decimal n) = .ok index →
    LooksAt .path format file (Text.decimal n) pathCall →
    LooksAt .importStatement format file (Text.decimal n) importCall →
    LooksAt .element .line file (Text.decimal n) elementCall →
      ∃ path statement,
        (run { view } pathCall).finish = { output := path ++ [Byte.newline] } ∧
        (run { view } importCall).finish = { output := statement ++ [Byte.newline] } ∧
        (run { view } elementCall).finish =
          { output :=
              Text.join [Byte.tab]
                [Text.decimal n,
                  (Document.elementAt view doc index (Path.absolute view.current file)).kind.word,
                  path, statement] ++ [Byte.newline] }
  /-- The report of the file, whose lines a 64-bit number can count, is made of the
  records of its lines in order, those of the kind of the module left out. -/
  outline {line : Text} {elementCall : Nat → List Text} {scanCall : List Text} :
    doc.length < 2 ^ 63 →
    (∀ n, 1 ≤ n → n ≤ doc.length →
      LooksAt .element .line file (Text.decimal n) (elementCall n)) →
    LooksAt .scan .line file line scanCall →
      (run { view } scanCall).finish =
        { output := (List.range' 1 doc.length).flatMap fun n =>
            unlessModule (run { view } (elementCall n)).finish.output }

/-- The commands fail alike: with one message, and nothing on the output. -/
def FailAlike (view : View) (file : Text) : Prop :=
  ∃ message notPython, ∀ {command : Command} {format : Format} {line : Text} {index : Int64}
    {arguments : List Text}, command ∈ Command.onSource → readLine line = .ok index →
      LooksAt command format file line arguments →
        (run { view } arguments).finish =
          { exit := 1, output := [],
            errorOutput := text "Error: " ++ message ++ [Byte.newline], notPython }

theorem finish_element {doc : Document} (hFound : findSource view file = .ok doc)
    (hLine : readLine line = .ok index) (h : LooksAt .element .line file line arguments) :
    (run { view } arguments).finish = { output := (locatedAt view file index doc).toRecord } := by
  rw [run_of_looksAt (by decide) hLine h, hFound]
  simp [orFail, continuation, Format.written, Format.report, Ending.finish]

theorem reportsAgree_of_found {doc : Document} (hFound : findSource view file = .ok doc) :
    ReportsAgree view file doc where
  record {n index format pathCall importCall elementCall} hLine hPath hImport hElement := by
    obtain ⟨hOne, hFits, rfl⟩ := readLine_decimal_iff.1 hLine
    let e := Document.elementAt view doc (Int64.ofNat (n - 1)) (Path.absolute view.current file)
    refine ⟨e.qualifiedPath, e.importStatement, ?_, ?_, ?_⟩
    · rw [run_of_looksAt (by decide) hLine hPath, hFound]
      rfl
    · rw [run_of_looksAt (by decide) hLine hImport, hFound]
      rfl
    · rw [finish_element hFound hLine hElement, toRecord_locatedAt (by omega),
        Nat.sub_add_cancel hOne]
  outline {line elementCall scanCall} hLength hElement hScan := by
    have hAnyLine : LooksAt .scan .line file (Text.decimal 1) scanCall := hScan
    have hLine : readLine (Text.decimal 1) = .ok 0 := rfl
    have hRecords : (List.range doc.length).flatMap (fun n =>
          unlessModule (locatedAt view file (Int64.ofNat n) doc).toRecord) =
        (List.range' 1 doc.length).flatMap fun n =>
          unlessModule (run { view } (elementCall n)).finish.output := by
      rw [List.range'_eq_map_range, List.flatMap_map]
      apply congrArg List.flatten
      apply List.map_congr_left
      intro n hMem
      have hInside := List.mem_range.1 hMem
      have hNumber := readLine_decimal_iff.2 ⟨Nat.le_add_right 1 n, by omega, rfl⟩
      have hCall := hElement (1 + n) (by omega) (by omega)
      rw [finish_element hFound hNumber hCall, Nat.add_sub_cancel_left]
    rw [run_of_looksAt (by decide) hLine hAnyLine, hFound, ← hRecords, ← report_outline hLength]
    rfl

theorem failAlike_of_not_found {failure : Failure} (h : findSource view file = .error failure)
    (hReport : failure.report = text "Error: " ++ failure.message ++ [Byte.newline]) :
    FailAlike view file := by
  refine ⟨failure.message, (Ending.failed failure).finish.notPython, ?_⟩
  intro command format line index arguments hSource hLine hLooks
  rw [run_of_looksAt hSource hLine hLooks, h, ← hReport]
  rfl

/-- The four commands about a source file, side by side. Where the file argument
names a readable Python file, the record of a line is made of what the plain commands
print, and the report of the file is made of the records of its lines. Where it does
not, all four fail alike. -/
theorem source_commands_agree (view : View) (file : Text) :
    (∀ content, Path.isPython (Path.absolute view.current file) = true →
        view.read (Path.absolute view.current file) = .ok content →
          ReportsAgree view file (Text.lines content)) ∧
      (Path.isPython (Path.absolute view.current file) = false ∨
          (∃ failure, view.read (Path.absolute view.current file) = .error failure) →
        FailAlike view file) := by
  refine ⟨?_, ?_⟩
  · intro content hPython hRead
    exact reportsAgree_of_found (findSource_of_read hPython hRead)
  · intro hMissing
    obtain ⟨failure, hNotFound, hReport⟩ := findSource_of_not_read hMissing
    exact failAlike_of_not_found hNotFound hReport

/-- A method on the second line of a file; a file that is named like a flag, reported
as a whole; and one that is no source. -/
theorem source_commands_agree_on_sample :
    (∃ path statement,
      (run { view := sampleView } [text "path", text "a.py", text "2"]).finish =
          { output := path ++ [Byte.newline] } ∧
        (run { view := sampleView } [text "import", text "a.py", text "2"]).finish =
            { output := statement ++ [Byte.newline] } ∧
          (run { view := sampleView }
              [text "element", text "a.py", text "2", text "--format", text "line"]).finish =
            { output := Text.join [Byte.tab] [text "2", text "method", path, statement] ++
                [Byte.newline] }) ∧
      ((run { view := sampleView } [text "scan", text "--", text "-a.py"]).finish =
          { output := [1].flatMap fun n => unlessModule (run { view := sampleView }
              [text "element", text "--format", text "line", text "--", text "-a.py",
                Text.decimal n]).finish.output } ∧
        (run { view := sampleView } [text "scan", text "--", text "-a.py"]).finish.output =
          text "1\tconstant\t-a.x\tfrom -a import x\n") ∧
      FailAlike sampleView (text "a.txt") := by
  have hMethod := (source_commands_agree sampleView (text "a.py")).1 _ (by decide) rfl
  have hFlag := (source_commands_agree sampleView (text "-a.py")).1 _ (by decide) rfl
  have hWords : ∀ word ∈ [text "a.py", text "2"], ¬ IsFlag word := by decide
  have hLine : readLine (Text.decimal 2) = .ok 1 := rfl
  have hPath : LooksAt .path .line (text "a.py") (text "2")
      [text "path", text "a.py", text "2"] := looksAt_words (by decide) (by decide) hWords
  have hImport : LooksAt .importStatement .line (text "a.py") (text "2")
      [text "import", text "a.py", text "2"] := looksAt_words (by decide) (by decide) hWords
  have hElement : LooksAt .element .line (text "a.py") (text "2")
      [text "element", text "a.py", text "2", text "--format", text "line"] :=
    looksAt_format_last rfl rfl hWords
  have hScan : LooksAt .scan .line (text "-a.py") (text "1")
      [text "scan", text "--", text "-a.py"] := looksAt_after_end (by decide) (by decide)
  refine ⟨hMethod.record hLine hPath hImport hElement,
    ⟨hFlag.outline (by decide) ?_ hScan, by decide +kernel⟩,
    (source_commands_agree sampleView (text "a.txt")).2 (.inl (by decide))⟩
  exact fun n _ _ => looksAt_format_first rfl rfl

end CommandLine

end DottedNames
