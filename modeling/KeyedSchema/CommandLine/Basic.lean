import KeyedSchema.Report.Basic

/-!
# Command line — what a run can be asked for

There is one command, `replay`, which carries out a script and prints a report. Its arguments make
up an `Invocation`. A command line that leads to none ends in a `Stop`: it asks for help or for the
version, or it is misused.
-/

namespace KeyedSchema

namespace CommandLine

def programName : String := "archmodel"

def version : String := "0.1.0"

/-! ## Commands and switches -/

inductive Command
  | replay
  | help
  deriving DecidableEq, Repr

namespace Command

def name : Command → String
  | replay => "replay"
  | help => "help"

def ofName? (name : String) : Option Command :=
  [replay, help].find? fun command => command.name == name

end Command

/-- Flags, and the option `format`, which has a value. -/
inductive Switch
  | verbose
  | help
  | version
  | format
  | noMagic
  | events
  deriving DecidableEq, Repr

namespace Switch

def name : Switch → String
  | verbose => "verbose"
  | help => "help"
  | version => "version"
  | format => "format"
  | noMagic => "no-magic"
  | events => "events"

/-- The letter that stands for a switch. -/
def letter? : Switch → Option Char
  | verbose => some 'v'
  | help => some 'h'
  | version => some 'V'
  | _ => none

end Switch

/-- Where an argument stands: in front of the command, or among the arguments of `replay`. -/
inductive Level
  | top
  | replay
  deriving DecidableEq, Repr

namespace Level

/-- The switches that may stand at a level. -/
def switches : Level → List Switch
  | top => [.verbose, .help, .version]
  | replay => [.verbose, .help, .format, .noMagic, .events]

def switchNamed? (level : Level) (name : String) : Option Switch :=
  level.switches.find? fun s => s.name == name

def switchWithLetter? (level : Level) (letter : Char) : Option Switch :=
  level.switches.find? fun s => s.letter? == some letter

/-- The command that help at a level is about. -/
def command? : Level → Option Command
  | top => none
  | replay => some .replay

end Level

/-! ## Requests -/

/-- What a run of `replay` is asked for. -/
structure Invocation where
  /-- The path of the script. -/
  script : String
  format : ReportFormat := .table
  showEvents : Bool := false
  /-- Whether tables start without key cascades, whatever the script says. -/
  noMagic : Bool := false
  verbose : Bool := false
  deriving DecidableEq, Repr

namespace Invocation

/-- The configuration of a run, from the one that the script asks for. -/
def config (inv : Invocation) (requested : Option Config) : Config :=
  let config := requested.getD {}
  if inv.noMagic then { config with magicByDefault := false } else config

/-- The directive that says which log messages are wanted: from the command line, from the
schema. -/
def logFilter (inv : Invocation) : String :=
  if inv.verbose then s!"{programName}_cli=debug,{programName}_core=debug"
  else s!"{programName}_cli=info,{programName}_core=warn"

end Invocation

/-- How a command line can be wrong. -/
inductive Misuse
  | unknownArgument (arg : String)
  | unknownCommand (word : String)
  /-- A flag that came with a value. -/
  | unexpectedValue (switch : Switch)
  /-- A flag or an option that came twice at the same level. -/
  | repeated (switch : Switch)
  | unknownFormat (value : String)
  | missingFormat
  | emptyPath
  | missingPath
  | missingCommand
  /-- No argument at all, where a command is needed. -/
  | nothingGiven
  deriving DecidableEq, Repr

/-- Why a command line leads to no run. -/
inductive Stop
  /-- Help is asked for, on a command or on the program. -/
  | help (command : Option Command)
  | version
  | misuse (m : Misuse)
  deriving DecidableEq, Repr

end CommandLine

end KeyedSchema
