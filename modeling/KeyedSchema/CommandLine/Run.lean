import KeyedSchema.CommandLine.Arguments
import KeyedSchema.CommandLine.Help
import KeyedSchema.Script.Decode
import KeyedSchema.Script.Replay

/-!
# Run — from a command line to what the program prints

The bytes of the script are all that a run needs from outside.
-/

namespace KeyedSchema

namespace CommandLine

/-- Why a run fails. -/
inductive Failure
  | unreadable (path reason : String)
  | invalidScript
  | replay (e : ReplayError)
  deriving DecidableEq, Repr

def Failure.message : Failure → String
  | unreadable path reason => s!"cannot read {path}: {reason}"
  | invalidScript => "invalid script"
  | replay e => e.message

/-- The reason why a file that is not there cannot be read. -/
def noSuchFile : String := "No such file or directory (os error 2)"

/-- The reason why a file that is not in UTF-8 cannot be read. -/
def notUtf8 : String := "stream did not contain valid UTF-8"

/-- The report that a run prints, from the bytes of the script or from the reason why there are
none. -/
def Invocation.report (inv : Invocation) (file : Except String ByteArray) :
    Except Failure String := do
  let text ←
    match file with
    | .error reason => throw (.unreadable inv.script reason)
    | .ok bytes =>
        match String.fromUTF8? bytes with
        | some text => pure text
        | none => throw (.unreadable inv.script notUtf8)
  match Script.ofText? text with
  | none => throw .invalidScript
  | some script =>
      match KeyedSchema.replay (inv.config script.config) script.steps with
      | .ok s => return inv.format.report inv.showEvents s
      | .error e => throw (.replay e)

/-- What a run leaves behind: its exit code, what it prints, and what it complains of. -/
structure Outcome where
  code : Nat := 0
  output : String := ""
  complaint : Option String := none
  deriving DecidableEq, Repr

/-- A command line that is misused ends with code 2. -/
def Stop.outcome : Stop → Outcome
  | .help command => { output := helpText command }
  | .version => { output := versionText }
  | .misuse m => { code := 2, complaint := some m.message }

/-- A run that fails ends with code 1. -/
def Invocation.outcome (inv : Invocation) (file : Except String ByteArray) : Outcome :=
  match inv.report file with
  | .ok report => { output := report ++ "\n" }
  | .error failure => { code := 1, complaint := some failure.message }

/-- What a command line leads to, if `contentOf` has the bytes of each path. -/
def outcome (contentOf : String → Except String ByteArray) (args : List String) : Outcome :=
  match read args with
  | .error stop => stop.outcome
  | .ok inv => inv.outcome (contentOf inv.script)

end CommandLine

end KeyedSchema
