import KeyedSchema.CommandLine.Basic

/-!
# Help — what the program says about itself

The help texts, the version, and the wording of each misuse.
-/

namespace KeyedSchema

namespace CommandLine

def usage : String :=
  s!"Replay edit scripts against a relational schema model

Usage: {programName} [OPTIONS] <COMMAND>

Commands:
  replay  Replay a JSON edit script against a fresh schema and print the result
  help    Print this message or the help of the given subcommand(s)

Options:
  -v, --verbose  Log cascade decisions at debug level
  -h, --help     Print help
  -V, --version  Print version
"

def replayUsage : String :=
  s!"Replay a JSON edit script against a fresh schema and print the result

Usage: {programName} replay [OPTIONS] <SCRIPT>

Arguments:
  <SCRIPT>  Path to the script

Options:
      --format <FORMAT>  Output format [default: table] [possible values: table, json]
  -v, --verbose          Log cascade decisions at debug level
      --no-magic         Start every table with automatic key cascades disabled. Overrides the script
      --events           Also print every event the replay emitted
  -h, --help             Print help
"

def helpUsage : String :=
  s!"Print this message or the help of the given subcommand(s)

Usage: {programName} help [COMMAND]...

Arguments:
  [COMMAND]...  Print help for the subcommand(s)
"

/-- The help on a command, or on the program. -/
def helpText : Option Command → String
  | none => usage
  | some .replay => replayUsage
  | some .help => helpUsage

def versionText : String := s!"{programName} {version}\n"

def Misuse.message : Misuse → String
  | unknownArgument arg => s!"unexpected argument {Text.quote arg}"
  | unknownCommand word => s!"unrecognized command {Text.quote word}"
  | unexpectedValue switch => s!"--{switch.name} takes no value"
  | repeated switch => s!"--{switch.name} cannot be used more than once"
  | unknownFormat value => s!"no output format is called {Text.quote value}"
  | missingFormat => "--format needs a value"
  | emptyPath => "the path of the script is empty"
  | missingPath => "the path of the script is missing"
  | missingCommand => "a command is required"
  | nothingGiven => "a command is required"

end CommandLine

end KeyedSchema
