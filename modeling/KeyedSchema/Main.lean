import KeyedSchema.CommandLine.Run

/-!
# Main — the program

Reads the script, prints the report on standard output and complaints on standard error.
-/

namespace KeyedSchema

namespace CommandLine

/-- The bytes of a file, or the reason why they cannot be read. -/
def readBytes (path : String) : IO (Except String ByteArray) := do
  try
    return .ok (← IO.FS.readBinFile path)
  catch
    | .noFileOrDirectory .. => return .error noSuchFile
    | e => return .error (toString e)

/-- Do what the command line asks for; the answer is the exit code. -/
def execute (args : List String) : IO UInt32 := do
  let outcome : Outcome ←
    match read args with
    | .error stop => pure stop.outcome
    | .ok inv => pure (inv.outcome (← readBytes inv.script))
  (← IO.getStdout).putStr outcome.output
  if let some complaint := outcome.complaint then
    (← IO.getStderr).putStrLn ("Error: " ++ complaint)
  return outcome.code.toUInt32

end CommandLine

end KeyedSchema

def main (args : List String) : IO UInt32 := KeyedSchema.CommandLine.execute args
