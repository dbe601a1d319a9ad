import DottedNames.CommandLine.Command

/-!
# Help

The help about a command is its description, its usage and a table of its
flags; the help about the program lists the commands. The table puts the
purpose of each flag into one column, three spaces right of the longest flag.
-/

namespace DottedNames

namespace CommandLine

/-- A text filled up with spaces to a width. -/
def padTo (width : Nat) (s : Text) : Text := s ++ List.replicate (width - s.length) Byte.space

/-- A flag as the table shows it, with a word for its value. -/
def Flag.heading (flag : Flag) : Text :=
  let name := match flag.letter with
    | some _ => text "  " ++ flag.label
    | none => text "      " ++ flag.label
  match flag.kind with
  | .switch => name
  | .text _ => name ++ text " string"
  | .counter => name ++ text " count"

/-- What a flag is for, and its default when it has one. -/
def Flag.purpose (flag : Flag) : Text :=
  match flag.kind with
  | .text (b :: rest) => flag.usage ++ text " (default " ++ Text.quote (b :: rest) ++ text ")"
  | _ => flag.usage

/-- The table of flags, one a line. -/
def flagTable (flags : List Flag) : Text :=
  let width := (flags.map fun f => f.heading.length).foldl max 0
  flags.flatMap fun f => padTo (width + 3) f.heading ++ f.purpose ++ [Byte.newline]

/-- The part of the help that lists flags. -/
def flagSection (flags : List Flag) : Text := text "\nFlags:\n" ++ flagTable flags

/-- The help about a command. -/
def commandHelp (command : Command) : Text :=
  command.description ++ text "\n\nUsage:\n  " ++ program ++ text " " ++ command.usage ++
    text " [flags]\n" ++ flagSection command.flags

/-- The commands in the order in which the help lists them. -/
def listedCommands : List Command :=
  [.completion, .element, .help, .importStatement, .serve, .path, .projectRoot, .scan]

/-- The list of commands, one a line. -/
def commandList : Text :=
  let width := (listedCommands.map fun c => c.name.length).foldl max 0
  listedCommands.flatMap fun c =>
    text "  " ++ padTo (width + 2) c.name ++ c.summary ++ [Byte.newline]

/-- How the program is used, with a table of the given flags if there are any. -/
def programUsage (flags : List Flag) : Text :=
  text "Usage:\n  " ++ program ++ text " [command]\n\nAvailable Commands:\n" ++ commandList ++
    (if flags.isEmpty then [] else flagSection flags) ++
    text "\nUse \"" ++ program ++ text " [command] --help\" for more information about a command.\n"

/-- The help about the program. -/
def programHelp : Text := programSummary ++ text "\n\n" ++ programUsage programFlags

/-- The line that shows the version. -/
def versionLine : Text := program ++ text " version " ++ version ++ [Byte.newline]

/-- What is shown when help is asked about words that name no command. -/
def unknownTopic (words : List Text) : Text :=
  text "Unknown help topic [" ++ Text.join [Byte.space] (words.map Text.quoteRaw) ++ text "]\n" ++
    programUsage []

/-- The answer to a request for help about some words. -/
def helpAbout (words : List Text) : Text :=
  match route words with
  | .program => programHelp
  | .command command _ => commandHelp command
  | .unknown _ => unknownTopic words

end CommandLine

end DottedNames
