import DottedNames.CommandLine.Flag
import DottedNames.CommandLine.Suggestion

/-!
# Commands

The program is a tree of commands one level deep. Each has a name, a summary,
a usage line, flags and, for most, a fixed number of words it takes.

Which command a line of arguments means is settled before any flag is known:
the first word that is not a flag names it. As long as flags are unknown, one
without an equals sign is taken to have the next argument for its value, when
more than one argument follows. The command then gets all other arguments.
-/

namespace DottedNames

namespace CommandLine

/-- The commands of the program. -/
inductive Command where
  | path
  | importStatement
  | element
  | scan
  | projectRoot
  | serve
  | help
  | completion
deriving DecidableEq, Repr

/-- The name of the program. -/
def program : Text := text "pyqual"

/-- The version of the program. -/
def version : Text := text "0.1.0"

/-- What the program is for. -/
def programSummary : Text :=
  text "Qualified paths and import statements for Python source positions"

/-- The flag that asks for help about something. -/
def helpFlag (about : Text) : Flag :=
  { name := text "help", letter := some 0x68, kind := .switch, usage := text "help for " ++ about }

/-- The flags of the program itself, when no command is named. -/
def programFlags : List Flag :=
  [helpFlag program,
    { name := text "version", letter := some 0x76, kind := .switch,
      usage := text "version for " ++ program }]

/-- The flag that chooses the format of a report. -/
def formatFlag (byDefault : Text) : Flag :=
  { name := text "format", letter := some 0x66, kind := .text byDefault,
    usage := text "output format (json, line)" }

namespace Command

/-- The commands in the order in which they are suggested. -/
def all : List Command :=
  [path, importStatement, element, scan, projectRoot, serve, help, completion]

/-- The name of a command. -/
def name : Command → Text
  | path => text "path"
  | importStatement => text "import"
  | element => text "element"
  | scan => text "scan"
  | projectRoot => text "root"
  | serve => text "lsp"
  | help => text "help"
  | completion => text "completion"

/-- The command with a name. -/
def ofName? (name : Text) : Option Command := all.find? fun c => c.name == name

/-- A command in a few words. -/
def summary : Command → Text
  | path => text "Print the qualified path of the element at a line"
  | importStatement => text "Print the import statement for the element at a line"
  | element => text "Dump everything detected at a line"
  | scan => text "List every class, function and constant in a Python file"
  | projectRoot => text "Print the project root used to derive module paths"
  | serve => text "Start the Language Server Protocol server"
  | help => text "Help about any command"
  | completion => text "Generate the autocompletion script for the specified shell"

/-- A command in full; the summary where there is no more to say. -/
def description : Command → Text
  | path => text ("Print the dotted qualified path (module.Class.method) of the class,\n" ++
      "function or top-level constant defined on the given 1-based line.")
  | projectRoot => text ("Walk up from the file's directory to the first directory containing\n" ++
      "one of the project markers and print it. Without a marker the file's own\n" ++
      "directory is used.")
  | serve => text ("Serve the pyqual.copyQualifiedPath and pyqual.copyImportStatement\n" ++
      "commands, code actions and hovers over stdio.")
  | help => text ("Help provides help for any command in the application.\n" ++
      "Simply type pyqual help [path to command] for full details.")
  | command => command.summary

/-- A command with the words it takes. -/
def usage : Command → Text
  | path => text "path <file> <line>"
  | importStatement => text "import <file> <line>"
  | element => text "element <file> <line>"
  | scan => text "scan <file>"
  | projectRoot => text "root <file>"
  | serve => text "lsp"
  | help => text "help [command]"
  | completion => text "completion [command]"

/-- The number of words a command takes; none when it takes any number. -/
def arity? : Command → Option Nat
  | path | importStatement | element => some 2
  | scan | projectRoot => some 1
  | serve | help | completion => none

/-- The flags of a command, in the order of their names. -/
def flags (command : Command) : List Flag :=
  let help := helpFlag command.name
  match command with
  | element => [formatFlag (text "json"), help]
  | scan => [formatFlag (text "line"), help]
  | projectRoot =>
    [help, { name := text "verbose", letter := some 0x76, kind := .switch,
             usage := text "show the marker found and the derived module path" }]
  | serve =>
    [help,
      { name := text "log-file", letter := none, kind := .text [],
        usage := text "write logs to this file instead of stderr" },
      { name := text "verbose", letter := some 0x76, kind := .counter,
        usage := text "log verbosity (repeat for more)" }]
  | _ => [help]

/-- The names that are suggested for a misspelt command. Help itself is not
among them. -/
def suggested (word : Text) : List Text :=
  suggestions word ((all.filter fun c => c != help).map name)

end Command

/-! ## Finding the command -/

/-- Whether an argument has the shape of a flag that takes the next one. -/
def takesNext (argument : Text) : Bool :=
  !argument.contains Byte.equals &&
    (endOfFlags.isPrefixOf argument ||
      (argument.head? == some Byte.dash && argument.length == 2))

/-- Whether an argument has the shape of a flag. -/
def isFlagLike (argument : Text) : Bool := argument.head? == some Byte.dash

/-- The first word among arguments whose flags are not known. -/
def firstWord? : List Text → Option Text
  | [] => none
  | argument :: rest =>
    if argument = endOfFlags then none
    else if takesNext argument then
      match rest with
      | _ :: next :: rest => firstWord? (next :: rest)
      | _ => none
    else if argument.isEmpty || isFlagLike argument then firstWord? rest
    else some argument

/-- The arguments without the first occurrence of a word. -/
def withoutWord (word : Text) : List Text → List Text
  | [] => []
  | argument :: rest =>
    if argument = endOfFlags then argument :: rest
    else if takesNext argument then
      match rest with
      | value :: rest => argument :: value :: withoutWord word rest
      | [] => [argument]
    else if argument = word then rest
    else argument :: withoutWord word rest

/-- What a line of arguments is addressed to. -/
inductive Route where
  /-- The program itself. -/
  | program
  /-- A command, with the arguments it gets. -/
  | command (command : Command) (arguments : List Text)
  /-- A word that names no command. -/
  | unknown (word : Text)
deriving DecidableEq, Repr

/-- Finds the command that arguments are addressed to. -/
def route (arguments : List Text) : Route :=
  match firstWord? arguments with
  | none => .program
  | some word =>
    match Command.ofName? word with
    | some command => .command command (withoutWord word arguments)
    | none => .unknown word

end CommandLine

end DottedNames
