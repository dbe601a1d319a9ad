import DottedNames.CommandLine.Help
import DottedNames.CommandLine.Line
import DottedNames.Report
import DottedNames.Source.Outline

/-!
# Running a command line

A command line is routed to a command, its flags are read, and then, in this
order, help is given if asked for, the number of words is checked and the
command runs. The commands that look at a source file resolve the file
argument against the current directory, want a Python file, read the line
argument, and read the file, and the first of these that fails is reported.
A report with an unknown format fails before all of that.

Output may be refused by whoever reads it. A report notices and fails, plain
lines do not.
-/

namespace DottedNames

namespace CommandLine

/-- Why a command line fails. -/
inductive Failure where
  | flag (fault : FlagFault)
  | wordCount (wanted received : Nat)
  | unknownCommand (word : Text)
  | unknownFormat (name : Text)
  | notPython (argument : Text)
  | badLine (fault : LineFault)
  | unreadable (failure : DottedNames.Failure)
  /-- The output did not take a report. -/
  | reportRefused
  /-- The output did not take the version. -/
  | outputRefused
deriving DecidableEq, Repr

/-- The list of suggestions for a misspelt command. -/
def suggestionList (names : List Text) : Text :=
  if names.isEmpty then []
  else text "\n\nDid you mean this?\n" ++
    names.flatMap fun name => Byte.tab :: name ++ [Byte.newline]

/-- What an output says that refuses to be written to. -/
def refusal : Text := text "write refused"

/-- The wording of a failure. -/
def Failure.message : Failure → Text
  | flag fault => fault.message
  | wordCount wanted received =>
    text "accepts " ++ Text.decimal wanted ++ text " arg(s), received " ++ Text.decimal received
  | unknownCommand word =>
    text "unknown command " ++ Text.quote word ++ text " for " ++ Text.quote program ++
      suggestionList (Command.suggested word)
  | unknownFormat name => text "unknown format: " ++ name
  | notPython argument => argument ++ text ": only works on Python files"
  | badLine fault => fault.message
  | unreadable failure => text "read python file: " ++ failure.message
  | reportRefused => text "encode: " ++ refusal
  | outputRefused => refusal

/-- What is written to the error output for a failure. -/
def Failure.report (f : Failure) : Text :=
  text "Error: " ++ f.message ++ [Byte.newline] ++
    match f with
    | unknownCommand _ => text "Run '" ++ program ++ text " --help' for usage.\n"
    | _ => []

/-- What a command works with. -/
structure Surroundings where
  view : View
  /-- Whether the output refuses everything written to it. -/
  outputRefuses : Bool := false
deriving DecidableEq, Repr

/-- How a command line ends. -/
inductive Ending where
  /-- The output is written and all is well. -/
  | printed (output : Text)
  | failed (failure : Failure)
  /-- The language server takes over the standard streams. -/
  | serving
deriving DecidableEq, Repr

/-! ## Source files -/

/-- The rooted path of a Python file named by an argument. -/
def pythonFile (view : View) (argument : Text) : Except Failure Text :=
  let path := Path.absolute view.current argument
  if Path.isPython path then .ok path else .error (.notPython argument)

/-- The lines of a file. -/
def readDocument (view : View) (path : Text) : Except Failure Document :=
  match view.read path with
  | .ok content => .ok (Text.lines content)
  | .error failure => .error (.unreadable failure)

/-- The element that a file argument and a line argument name. -/
def elementAt (view : View) (file line : Text) : Except Failure Located := do
  let path ← pythonFile view file
  let line ← match readLine line with
    | .ok line => .ok line
    | .error fault => .error (.badLine fault)
  let doc ← readDocument view path
  return { line, element := Document.elementAt view doc line path }

/-! ## Commands -/

/-- Ends with a plain line; a refused one is not noticed. -/
def printLine (s : Surroundings) (line : Text) : Ending :=
  .printed (if s.outputRefuses then [] else line ++ [Byte.newline])

/-- Ends with plain text; a refused one is not noticed. -/
def printText (s : Surroundings) (output : Text) : Ending :=
  .printed (if s.outputRefuses then [] else output)

/-- Ends with a report, unless it is refused. -/
def printReport (s : Surroundings) (format : Format) (elements : List Located) : Ending :=
  if s.outputRefuses then .failed .reportRefused else .printed (format.written elements)

/-- The format chosen by the flags. -/
def chosenFormat (r : Reading) (byDefault : Text) : Except Failure Format :=
  let name := r.textOf (text "format") byDefault
  match Format.ofName? name with
  | some format => .ok format
  | none => .error (.unknownFormat name)

/-- What is shown where the project of a file has no marker. -/
def noMarker : Text := text "none (fallback to file directory)"

/-- The detailed answer about the project of a file. -/
def projectDetails (project : Project) (path : Text) : Text :=
  text "Root:    " ++ project.root ++
    text "\nMarker:  " ++ project.marker.getD noMarker ++
    text "\nModule:  " ++ Project.modulePath project.root path ++
    text "\nMarkers: " ++ Text.join (text ", ") Project.markers ++ [Byte.newline]

/-- Ends in failure, or as the value decides. -/
def orFail {α : Type} (value : Except Failure α) (next : α → Ending) : Ending :=
  match value with
  | .ok a => next a
  | .error failure => .failed failure

/-- Runs a command on its words. -/
def runCommand (s : Surroundings) (command : Command) (r : Reading) : Ending :=
  match command, r.words with
  | .path, [file, line] =>
    orFail (elementAt s.view file line) fun e => printLine s e.element.qualifiedPath
  | .importStatement, [file, line] =>
    orFail (elementAt s.view file line) fun e => printLine s e.element.importStatement
  | .element, [file, line] =>
    orFail (chosenFormat r (text "json")) fun format =>
    orFail (elementAt s.view file line) fun e => printReport s format [e]
  | .scan, [file] =>
    orFail (chosenFormat r (text "line")) fun format =>
    orFail (pythonFile s.view file) fun path =>
    orFail (readDocument s.view path) fun doc =>
      printReport s format (Document.outline s.view doc path)
  | .projectRoot, [file] =>
    let path := Path.absolute s.view.current file
    let project := Project.locate s.view path
    if r.isOn (text "verbose") then printText s (projectDetails project path)
    else printLine s project.root
  | .serve, _ => .serving
  | .help, words => printText s (helpAbout words)
  | command, _ => printText s (commandHelp command)

/-- Whether a command takes a number of words. -/
def checkWordCount (command : Command) (received : Nat) : Except Failure Unit :=
  match command.arity? with
  | some wanted => if received = wanted then .ok () else .error (.wordCount wanted received)
  | none => .ok ()

/-- Runs a command on its arguments. -/
def runArguments (s : Surroundings) (command : Command) (arguments : List Text) : Ending :=
  match readFlags command.flags arguments with
  | .error fault => .failed (.flag fault)
  | .ok r =>
    if r.isOn (text "help") then printText s (commandHelp command)
    else orFail (checkWordCount command r.words.length) fun _ => runCommand s command r

/-- Runs the program when no command is named. -/
def runProgram (s : Surroundings) (arguments : List Text) : Ending :=
  match readFlags programFlags arguments with
  | .error fault => .failed (.flag fault)
  | .ok r =>
    if r.isOn (text "help") then printText s programHelp
    else if r.isOn (text "version") then
      if s.outputRefuses then .failed .outputRefused else .printed versionLine
    else printText s programHelp

/-- Runs a command line. -/
def run (s : Surroundings) (arguments : List Text) : Ending :=
  match route arguments with
  | .unknown word => .failed (.unknownCommand word)
  | .command command arguments => runArguments s command arguments
  | .program => runProgram s arguments

/-- What a command line leaves behind. -/
structure Finish where
  exit : Nat := 0
  output : Text := []
  errorOutput : Text := []
  /-- Whether it failed because a file is no Python file. -/
  notPython : Bool := false
deriving DecidableEq, Repr

/-- What an ending leaves behind. -/
def Ending.finish : Ending → Finish
  | printed output => { output }
  | failed failure =>
    { exit := 1
      errorOutput := failure.report
      notPython := match failure with
        | .notPython _ => true
        | _ => false }
  | serving => {}

end CommandLine

end DottedNames
