import DottedNames.Proofs.CommandCalls
import DottedNames.Proofs.ProjectRoots
import DottedNames.Proofs.StoreLaws
import DottedNames.Proofs.WholeNumbers
import DottedNames.Server.State

/-!
# The two front ends

The command line and the language server answer the same question by different
ways: what does a line of a file define? The command line resolves the file
argument, reads the line argument, counted from one, and reads the file. The
server takes the path for a URI, reads the line as a number of the exchange
format, counted from zero, and goes through its document store. `Finding` is the
question's answer said once, for a rooted path and a line; each front end shows
the finding in its own form, so the two agree.

A file argument that has the shape of a flag is a flag to the command line and
never a file, so there the two can differ; behind the end of flags it is a file
again.

## Main results

* `CommandLine.run_call` — what a call of the command line shows.
* `Server.handle_commandRequest` — what a command request to a new session shows.
* `front_ends_agree` — the two show the same finding.
* `front_ends_differ` — where they do not: a file that looks like a flag, and a
  server without messages.
-/

namespace DottedNames

/-! ## Rooted paths are the same from everywhere -/

namespace View

variable {view : View} {path : Text}

theorem locate_elsewhere (h : Path.isRooted path = true) (elsewhere : Text) (ending : Disk.Ending) :
    locate { view with current := elsewhere } ending path = locate view ending path := by
  simp [locate, h]

theorem entry_elsewhere (h : Path.isRooted path = true) (elsewhere : Text) (ending : Disk.Ending) :
    entry { view with current := elsewhere } ending path = entry view ending path := by
  simp [entry, locate_elsewhere h]

theorem read_elsewhere (h : Path.isRooted path = true) (elsewhere : Text) :
    read { view with current := elsewhere } path = read view path := by
  simp [read, follow, entry_elsewhere h]

end View

theorem Path.isRooted_ascent {path : Text} (h : Path.isRooted path = true) (i : Nat) :
    Path.isRooted (Path.ascent path i) = true := by
  rw [Path.ascent_eq, Path.isRooted,
    Trail.head?_toText ((Project.isNormal_dirTrail path).up i), Trail.rooted_up,
    Path.rooted_dirTrail, h]

theorem Path.isRooted_absolute {current : Text} (h : Path.isRooted current = true) (path : Text) :
    Path.isRooted (Path.absolute current path) = true := by
  obtain ⟨names, -, hNames⟩ := Path.absolute_eq_ofNames h path
  rw [hNames]
  exact Path.isRooted_ofNames names

theorem Document.elementAt_elsewhere {view : View} {path : Text} (h : Path.isRooted path = true)
    (elsewhere : Text) (doc : Document) (line : Int64) :
    elementAt { view with current := elsewhere } doc line path = elementAt view doc line path := by
  -- the search for the project is the only thing here that asks the disk
  have hProject : Project.locate { view with current := elsewhere } path =
      Project.locate view path := by
    apply Project.locate_congr
    intro i _ name _
    have hRooted : Path.isRooted (Path.ascent path i ++ Byte.slash :: name) = true := by
      have hDir := Path.isRooted_ascent h i
      cases hText : Path.ascent path i with
      | nil => rfl
      | cons b rest =>
          rw [hText] at hDir
          exact hDir
    simp only [Project.Holds, View.inspect, View.entry_elsewhere hRooted]
  simp only [elementAt, Project.modulePathOf, hProject]

/-! ## What there is to find -/

/-- What there is at a line of a file. -/
inductive Finding where
  | notPython
  | unreadable (failure : Failure)
  | element (e : Element)

/-- What there is at a line, counted from zero, of the file at a rooted path. -/
def Finding.at (view : View) (path : Text) (line : Int64) : Finding :=
  if Path.isPython path then
    match view.read path with
    | .ok content => .element (Document.elementAt view (Text.lines content) line path)
    | .error failure => .unreadable failure
  else .notPython

theorem Finding.at_elsewhere {view : View} {path : Text} (h : Path.isRooted path = true)
    (elsewhere : Text) (line : Int64) :
    Finding.at { view with current := elsewhere } path line = Finding.at view path line := by
  simp only [Finding.at, View.read_elsewhere h, Document.elementAt_elsewhere h]

/-! ## The command line -/

namespace CommandLine

/-- The command that does on the command line what a command of the server does. -/
def counterpart : Server.Command → Command
  | .copyQualifiedPath => .path
  | .copyImportStatement => .importStatement

/-- The arguments call a command on a file and a line: the file does not look like
a flag, or it comes behind the end of flags. -/
def Calls (command : Command) (file line : Text) (arguments : List Text) : Prop :=
  ¬ IsFlag file ∧ arguments = [command.name, file, line] ∨
    arguments = [command.name, endOfFlags, file, line]

/-- How a call ends that has found something. -/
def endingOf (command : Server.Command) (file : Text) : Finding → Ending
  | .notPython => .failed (.notPython file)
  | .unreadable failure => .failed (.unreadable failure)
  | .element e => .printed (command.render e ++ [Byte.newline])

theorem elementAt_eq {view : View} {file line : Text} {index : Int64}
    (hLine : readLine line = .ok index) :
    elementAt view file line =
      match Finding.at view (Path.absolute view.current file) index with
      | .notPython => .error (.notPython file)
      | .unreadable failure => .error (.unreadable failure)
      | .element e => .ok { line := index, element := e } := by
  by_cases hPython : Path.isPython (Path.absolute view.current file) = true
  · simp only [elementAt, pythonFile, Finding.at, hPython, if_true, hLine, readDocument, bind,
      Except.bind, pure, Except.pure]
    cases view.read (Path.absolute view.current file) <;> rfl
  · simp [elementAt, pythonFile, Finding.at, hPython, bind, Except.bind]

theorem runCommand_counterpart (view : View) (command : Server.Command) {file line : Text}
    {index : Int64} (hLine : readLine line = .ok index) :
    runCommand { view } (counterpart command) { words := [file, line] } =
      endingOf command file (Finding.at view (Path.absolute view.current file) index) := by
  have hRun : runCommand { view } (counterpart command) { words := [file, line] } =
      orFail (elementAt view file line) fun e => printLine { view } (command.render e.element) := by
    cases command <;> rfl
  rw [hRun, elementAt_eq hLine]
  cases Finding.at view (Path.absolute view.current file) index <;> rfl

/-- A call shows what is found at the line of the file. -/
theorem run_call {view : View} {command : Server.Command} {file line : Text} {arguments : List Text}
    {index : Int64} (hCall : Calls (counterpart command) file line arguments)
    (hLine : readLine line = .ok index) :
    run { view } arguments =
      endingOf command file (Finding.at view (Path.absolute view.current file) index) := by
  have hArity : (counterpart command).arity? = some [file, line].length := by
    cases command <;> rfl
  rw [← runCommand_counterpart view command hLine]
  rcases hCall with ⟨hFile, rfl⟩ | rfl
  · apply run_words _ hArity
    intro word hWord
    rcases List.mem_cons.1 hWord with rfl | hRest
    · exact hFile
    · -- a dash would make the line negative, and it was accepted
      rw [List.mem_singleton.1 hRest]
      exact not_isFlag_of_readLine hLine
  · exact run_words_after_end _ hArity

end CommandLine

/-! ## The server -/

namespace Server

/-- A new server that has answered one request, the one that opens a session. -/
def JustOpened (s : State) : Prop :=
  ∃ version canNotify view params answer,
    (State.handle { version, canNotify } view (text "initialize") params).1.answer = .ok answer ∧
      (State.handle { version, canNotify } view (text "initialize") params).2 = s

/-- Parameters that ask for a command on a document and a line. -/
def commandParams (command : Command) (uri : Text) (line : Nat) : Json :=
  record [("command", .string command.name), ("arguments", .array [.string uri, .ofNat line])]

/-- What a command comes to that has found something. -/
def outcomeOf (s : State) (command : Command) (path : Text) : Finding → Outcome
  | .notPython =>
    { answer := .ok .nothing, messages := s.sends .info (text "Only works on Python files.") }
  | .unreadable _ =>
    { answer := .ok .nothing, messages := s.sends .error (text "Cannot read " ++ path) }
  | .element e =>
    { answer := .ok (.copied (command.render e)),
      messages := s.sends .info (text "Copied: " ++ command.render e) }

/-- A session has been opened, and nothing is in its store yet. -/
theorem JustOpened.cases {s : State} (h : JustOpened s) :
    s.initialized = true ∧ ∃ root, s.workspace = some { root } := by
  obtain ⟨version, canNotify, view, params, answer, hAnswer, rfl⟩ := h
  have hName : Method.ofName? (text "initialize") = some .startSession := by decide
  unfold State.handle Request.read at hAnswer ⊢
  rw [hName] at hAnswer ⊢
  cases params with
  | none => exact absurd hAnswer (by simp)
  | some params =>
      by_cases hFits : Method.startSession.shape.fits params = true
      · simp [hFits, Request.ofParams, State.serve, State.startSession]
      · exact absurd hAnswer (by simp [hFits])

/-- In an empty store the lines of a document come from the disk. -/
theorem elementAt_of_empty (view : View) (path : Text) (line : Int64) :
    (Store.elementAt {} view path line).1 =
      match view.read path with
      | .ok content => some (Document.elementAt view (Text.lines content) line path)
      | .error _ => none := by
  simp only [Store.elementAt, Store.linesOf, Store.get?_empty]
  cases hRead : view.read path with
  | ok content =>
      have hHeld : Store.get? (Store.commit {} path content) path =
          some { path, lines := Text.lines content, isOpen := false } := by
        rw [Store.get?_commit, if_pos ⟨rfl, rfl⟩]
      simp [Store.scanned_of_read hRead, hHeld]
  | error failure => simp [Store.scanned_of_error hRead, Store.get?_empty]

theorem runCommand_of_empty {s : State} {root : Text} (hStore : s.workspace = some { root })
    (view : View) (command : Command) (path : Text) (line : Int64) :
    (s.runCommand view command path line).1 =
      outcomeOf s command path (Finding.at view path line) := by
  have hElement := elementAt_of_empty view path line
  by_cases hPython : Path.isPython path = true
  · cases hRead : view.read path with
    | ok content =>
        rw [hRead] at hElement
        simp [State.runCommand, State.elementAt, hStore, hPython, hElement, Finding.at, hRead,
          outcomeOf]
    | error failure =>
        rw [hRead] at hElement
        simp [State.runCommand, State.elementAt, hStore, hPython, hElement, Finding.at, hRead,
          outcomeOf]
  · simp [State.runCommand, hPython, Finding.at, outcomeOf]

/-! ### Reading a command request -/

/-- A rooted path is no URI of a file and stands for itself. -/
theorem toPath_of_isRooted {path : Text} (h : Path.isRooted path = true) :
    Uri.toPath path = .ok path := by
  have hPlain : Text.dropPrefix? Uri.fileScheme path = none := by
    cases path with
    | nil => rfl
    | cons b rest =>
        have hHead : b = Byte.slash := by simpa [Path.isRooted] using h
        subst hHead
        rfl
  simp [Uri.toPath, hPlain]

theorem line?_ofNat {n : Nat} (h : n < 2 ^ Json.significandBits) :
    (Argument.json (Json.ofNat n)).line? = some (Int64.ofNat n) := by
  have hFits : Argument.fits64 (n : Int) = true := by
    have hHalf : 2 ^ Json.significandBits < Numeral.half64 := by decide +kernel
    simp only [Argument.fits64, Bool.and_eq_true, decide_eq_true_eq]
    omega
  have hSame : Int64.ofInt (n : Int) = Int64.ofNat n := by
    simp only [Int64.ofInt, BitVec.ofInt_natCast]
    rfl
  simp [Argument.line?, Json.ofNat, Json.wholePart?_decimal h, Argument.clampToLeast, hFits, hSame]

theorem readArguments_of_isRooted {path : Text} (hPath : Path.isRooted path = true) {n : Nat}
    (h : n < 2 ^ Json.significandBits) :
    readArguments [.json (.string path), .json (.ofNat n)] = .ok (path, Int64.ofNat n) := by
  have hText : (Argument.json (.string path)).text? = some path := rfl
  simp only [readArguments, hText, line?_ofNat h, toPath_of_isRooted hPath]

/-- Members that give a command by name, and its arguments, ask for that command. -/
theorem read_executeCommand {members : List (Text × Json)} {command : Command} {uri : Text}
    {n : Nat} (h : n < 2 ^ Json.significandBits)
    (hToken : valuesOf "workDoneToken" members = [])
    (hCommand : valuesOf "command" members = [.string command.name])
    (hArguments : valuesOf "arguments" members = [.array [.string uri, .ofNat n]]) :
    Request.read (text "workspace/executeCommand") (some (.object members)) =
      .ok (.executeCommand command.name [.json (.string uri), .json (.ofNat n)]) := by
  have hMethod : Method.ofName? (text "workspace/executeCommand") = some .executeCommand := by
    decide
  have hValue : (Json.wholePart? (Text.decimal n)).isSome = true := by
    rw [Json.wholePart?_decimal h]
    rfl
  have hFits : Method.executeCommand.shape.fits (.object members) = true := by
    simp [Method.shape, Shape.fits, fieldsFit, Shape.bound, hToken, hCommand, hArguments,
      hasValue, Json.ofNat, hValue]
  have hName : textAt ["command"] (.object members) = command.name := by
    simp [textAt, reach, hCommand, textOf?]
  have hItems : itemsAt ["arguments"] (.object members) = [.string uri, .ofNat n] := by
    simp [itemsAt, reach, hArguments]
  simp [Request.read, hMethod, hFits, Request.ofParams, hName, hItems]

theorem valuesOf_commandParams (name arguments : Json) :
    valuesOf "workDoneToken" [(text "command", name), (text "arguments", arguments)] = [] ∧
      valuesOf "command" [(text "command", name), (text "arguments", arguments)] = [name] ∧
        valuesOf "arguments" [(text "command", name), (text "arguments", arguments)] =
          [arguments] :=
  ⟨rfl, rfl, rfl⟩

theorem read_commandParams (command : Command) (uri : Text) {n : Nat}
    (h : n < 2 ^ Json.significandBits) :
    Request.read (text "workspace/executeCommand") (some (commandParams command uri n)) =
      .ok (.executeCommand command.name [.json (.string uri), .json (.ofNat n)]) := by
  obtain ⟨hToken, hCommand, hArguments⟩ :=
    valuesOf_commandParams (.string command.name) (.array [.string uri, .ofNat n])
  exact read_executeCommand h hToken hCommand hArguments

theorem ofName?_name (command : Command) : Command.ofName? command.name = some command := by
  cases command <;> decide

/-- A command request to a new session shows what is found at the line of the
file. -/
theorem handle_commandRequest {s : State} (hOpened : JustOpened s) (view : View) (command : Command)
    {path : Text} (hPath : Path.isRooted path = true) {n : Nat}
    (h : n < 2 ^ Json.significandBits) :
    (s.handle view (text "workspace/executeCommand") (some (commandParams command path n))).1 =
      outcomeOf s command path (Finding.at view path (Int64.ofNat n)) := by
  obtain ⟨hOpen, root, hStore⟩ := hOpened.cases
  rw [← runCommand_of_empty hStore view command path (Int64.ofNat n)]
  simp only [State.handle, hOpen, Bool.not_true, Bool.false_and, Bool.false_eq_true, if_false,
    read_commandParams command path h, State.serve, State.executeCommand, ofName?_name,
    readArguments_of_isRooted hPath h]

end Server

/-! ## Agreement -/

/-- What a command line leaves behind and what a command request comes to say the
same. -/
structure Agree (canNotify : Bool) (finish : CommandLine.Finish) (outcome : Server.Outcome) :
    Prop where
  /-- The line that is printed is the result. -/
  result (r : Text) :
    finish.exit = 0 ∧ finish.output = r ++ [Byte.newline] ↔ outcome.answer = .ok (.copied r)
  /-- A failure is an empty result. -/
  failure : finish.exit = 1 ↔ outcome.answer = .ok .nothing
  /-- That the file is no Python file is said on both sides, where messages reach
  the editor. -/
  notPython : canNotify = true →
    (finish.notPython = true ↔
      outcome.messages = [{ severity := .info, content := text "Only works on Python files." }])

/-- Each front end shows a finding in its own form. -/
theorem agree_of_finding (s : Server.State) (command : Server.Command) (file path : Text)
    (found : Finding) :
    Agree s.canNotify (CommandLine.endingOf command file found).finish
      (Server.outcomeOf s command path found) where
  result r := by
    cases found <;> simp [CommandLine.endingOf, CommandLine.Ending.finish, Server.outcomeOf]
  failure := by
    cases found <;> simp [CommandLine.endingOf, CommandLine.Ending.finish, Server.outcomeOf]
  notPython hNotify := by
    have hOther : ∀ r, text "Copied: " ++ r ≠ text "Only works on Python files." := by
      intro r hSame
      have hHead : some (0x43 : UInt8) = some 0x4f := congrArg List.head? hSame
      exact absurd hHead (by decide)
    cases found <;> simp [CommandLine.endingOf, CommandLine.Ending.finish, Server.outcomeOf,
      Server.State.sends, hNotify, hOther]

/-- A call of the command line and the request for the same command, on the path
that the file argument stands for and the same line, say the same. The server is a
new session, which may run in another current directory. -/
theorem front_ends_agree {view : View} (hCurrent : Path.isRooted view.current = true)
    {server : Server.State} (hServer : Server.JustOpened server) (elsewhere : Text)
    (command : Server.Command) {file line : Text} {arguments : List Text} {n : Nat}
    (hCall : CommandLine.Calls (CommandLine.counterpart command) file line arguments)
    (hLine : CommandLine.readLine line = .ok (Int64.ofNat n)) (hSmall : n < 2 ^ 32) :
    Agree server.canNotify (CommandLine.run { view } arguments).finish
      (server.handle { view with current := elsewhere } (text "workspace/executeCommand")
        (some (Server.commandParams command (Path.absolute view.current file) n))).1 := by
  have hPath := Path.isRooted_absolute hCurrent file
  -- the line crosses the exchange format as a double, which holds it exactly
  have hExact : n < 2 ^ Json.significandBits := Nat.lt_trans hSmall (by decide)
  rw [CommandLine.run_call hCall hLine,
    Server.handle_commandRequest hServer _ command hPath hExact,
    Finding.at_elsewhere hPath elsewhere]
  exact agree_of_finding server command file _ _

/-- A directory with two sources, the second of which is named like a flag. -/
def sampleView : View :=
  { disk := { entries := [
      ([text "w"], .directory),
      ([text "w", text "a.py"], .file (text "class K:\n    def m(self):")),
      ([text "w", text "-a.py"], .file (text "x = 1"))] }
    current := text "/w" }

/-- A server whose session has just been opened. -/
def sampleServer (canNotify : Bool) : Server.State :=
  (Server.State.handle { version := text "1", canNotify } sampleView (text "initialize")
    (some (Server.record []))).2

theorem justOpened_sampleServer (canNotify : Bool) : Server.JustOpened (sampleServer canNotify) :=
  ⟨text "1", canNotify, sampleView, some (Server.record []), .capabilities (text "1"), rfl, rfl⟩

theorem front_ends_agree_on_method :
    Agree true (CommandLine.run { view := sampleView } [text "path", text "a.py", text "2"]).finish
        ((sampleServer true).handle { sampleView with current := text "/" }
          (text "workspace/executeCommand") (some (Server.commandParams .copyQualifiedPath
            (Path.absolute sampleView.current (text "a.py")) 1))).1 ∧
      (CommandLine.run { view := sampleView } [text "path", text "a.py", text "2"]).finish.output =
        text "a.K.m\n" :=
  ⟨front_ends_agree (by decide) (justOpened_sampleServer true) (text "/") .copyQualifiedPath
    (.inl ⟨by decide, rfl⟩) rfl (by decide), by decide +kernel⟩

/-- The two ways in which the front ends differ. A file with a name like a flag is
refused by the command line, while the server finds what its first line defines;
and where messages do not reach the editor, nothing says that a file is no Python
file. -/
theorem front_ends_differ :
    CommandLine.readLine (text "1") = .ok (Int64.ofNat 0) ∧
      ((CommandLine.run { view := sampleView } [text "path", text "-a.py", text "1"]).finish.exit =
          1 ∧
        ((sampleServer true).handle sampleView (text "workspace/executeCommand")
          (some (Server.commandParams .copyQualifiedPath
            (Path.absolute sampleView.current (text "-a.py")) 0))).1.answer =
          .ok (.copied (text "-a.x"))) ∧
      ((CommandLine.run { view := sampleView }
          [text "path", text "a.txt", text "1"]).finish.notPython = true ∧
        ((sampleServer false).handle sampleView (text "workspace/executeCommand")
          (some (Server.commandParams .copyQualifiedPath
            (Path.absolute sampleView.current (text "a.txt")) 0))).1.messages = []) := by
  refine ⟨rfl, ⟨by decide +kernel, ?_⟩, by decide +kernel, ?_⟩
  · rw [Server.handle_commandRequest (justOpened_sampleServer true) sampleView .copyQualifiedPath
      (by decide) (by decide)]
    rfl
  · rw [Server.handle_commandRequest (justOpened_sampleServer false) sampleView .copyQualifiedPath
      (by decide) (by decide)]
    rfl

end DottedNames
