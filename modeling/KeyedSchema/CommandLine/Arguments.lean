import KeyedSchema.CommandLine.Basic

/-!
# Arguments — reading a command line

Arguments are read from left to right. A value, be it the path of the script or the value of
`--format`, is looked at only when the next switch has been recognized or when the arguments end;
an argument that is not recognized is reported before a bad value in front of it.
-/

namespace KeyedSchema

namespace CommandLine

/-! ## Forms of arguments -/

/-- An argument by its form. -/
inductive Argument
  /-- The two dashes after which nothing is a switch any more. -/
  | separator
  /-- A switch by its name, and the value behind an equals sign. -/
  | long (name : String) (value : Option String)
  /-- Switches by their letters. -/
  | letters (cs : List Char)
  | word (s : String)
  deriving DecidableEq, Repr

namespace Argument

/-- The name of a switch and the value attached to it. -/
def splitValue (cs : List Char) : String × Option String :=
  let name := cs.takeWhile (· ≠ '=')
  match cs.dropWhile (· ≠ '=') with
  | [] => (String.ofList name, none)
  | _ :: value => (String.ofList name, some (String.ofList value))

def ofString (arg : String) : Argument :=
  match arg.toList with
  | ['-', '-'] => separator
  | '-' :: '-' :: cs =>
      let (name, value) := splitValue cs
      long name value
  | '-' :: c :: cs => letters (c :: cs)
  | _ => word arg

end Argument

/-! ## Progress within a level -/

/-- A value that has been read but not looked at. -/
inductive Pending
  | path (value : String)
  /-- The value of `--format`, or none as long as it has not come. -/
  | format (value : Option String)
  deriving DecidableEq, Repr

/-- What the arguments of a level have said so far. -/
structure Progress where
  verbose : Bool := false
  noMagic : Bool := false
  showEvents : Bool := false
  format : Option ReportFormat := none
  path : Option String := none
  pending : Option Pending := none
  deriving DecidableEq, Repr

namespace Progress

def misuse {α : Type} (m : Misuse) : Except Stop α := .error (.misuse m)

/-- Take in the value of `--format`. -/
def withFormat (p : Progress) (value : String) : Except Stop Progress :=
  if p.format.isSome then misuse (.repeated .format)
  else
    match ReportFormat.ofCode? value with
    | some format => .ok { p with format := some format }
    | none => misuse (.unknownFormat value)

/-- Look at the value that is pending. -/
def settle (p : Progress) : Except Stop Progress :=
  let rest := { p with pending := none }
  match p.pending with
  | none => .ok p
  | some (.path value) =>
      if value.isEmpty then misuse .emptyPath else .ok { rest with path := some value }
  | some (.format none) => misuse .missingFormat
  | some (.format (some value)) => rest.withFormat value

/-- Take in a switch that came without a value. -/
def switch (level : Level) (s : Switch) (p : Progress) : Except Stop Progress := do
  let p ← p.settle
  match s with
  | .help => .error (.help level.command?)
  | .version => .error .version
  | .format => return { p with pending := some (.format none) }
  | .verbose => if p.verbose then misuse (.repeated s) else return { p with verbose := true }
  | .noMagic => if p.noMagic then misuse (.repeated s) else return { p with noMagic := true }
  | .events => if p.showEvents then misuse (.repeated s) else return { p with showEvents := true }

/-- Take in a switch given by its name. -/
def long (level : Level) (name : String) (value : Option String) (p : Progress) :
    Except Stop Progress :=
  match level.switchNamed? name, value with
  | none, _ => misuse (.unknownArgument s!"--{name}")
  | some s, none => p.switch level s
  | some .format, some value => do (← p.settle).withFormat value
  | some s, some _ => misuse (.unexpectedValue s)

/-- Take in switches given by their letters. -/
def letters (level : Level) : List Char → Progress → Except Stop Progress
  | [], p => .ok p
  | c :: cs, p =>
      match level.switchWithLetter? c with
      | none => misuse (.unknownArgument s!"-{c}")
      | some s => do letters level cs (← p.switch level s)

/-- Whether the path of the script has come. -/
def hasPath (p : Progress) : Bool :=
  match p.pending with
  | some (.path _) => true
  | _ => p.path.isSome

/-- Take in a word as the path of the script. -/
def word (s : String) (p : Progress) : Except Stop Progress :=
  if p.hasPath then misuse (.unknownArgument s)
  else do return { ← p.settle with pending := some (.path s) }

/-- Take in a word as the value that `--format` waits for, or else as the path of the script. -/
def value (s : String) (p : Progress) : Except Stop Progress :=
  match p.pending with
  | some (.format none) => .ok { p with pending := some (.format (some s)) }
  | _ => p.word s

/-- The invocation that the arguments of `replay` make, `verbose` being what was said in front of
the command. -/
def invocation (verbose : Bool) (p : Progress) : Except Stop Invocation := do
  let p ← p.settle
  match p.path with
  | none => misuse .missingPath
  | some script =>
      return {
        script
        format := p.format.getD .table
        showEvents := p.showEvents
        noMagic := p.noMagic
        verbose := verbose || p.verbose }

end Progress

/-! ## Reading -/

/-- Read the arguments of `replay`; `plain` says that no more switches follow. -/
def readReplay (plain : Bool) (p : Progress) : List String → Except Stop Progress
  | [] => .ok p
  | arg :: rest =>
      if plain then do readReplay true (← p.word arg) rest
      else
        match Argument.ofString arg with
        -- what follows is a word, even with a dash in front
        | .separator => readReplay true p rest
        | .long name value => do readReplay false (← p.long .replay name value) rest
        | .letters cs => do readReplay false (← p.letters .replay cs) rest
        | .word s => do readReplay false (← p.value s) rest

/-- What the command `help` leads to with the words behind it. -/
def helpOn : List String → Stop
  | [] => .help none
  | [word] =>
      match Command.ofName? word with
      | some command => .help (some command)
      | none => .misuse (.unknownCommand word)
  | first :: second :: _ =>
      .misuse (.unknownCommand (if (Command.ofName? first).isSome then second else first))

/-- Read the arguments from the front of the command on. -/
def readTop (plain : Bool) (p : Progress) : List String → Except Stop Invocation
  | [] => Progress.misuse (if p.verbose then .missingCommand else .nothingGiven)
  | arg :: rest =>
      if plain then
        Progress.misuse
          (if (Command.ofName? arg).isSome then .unknownArgument arg else .unknownCommand arg)
      else
        match Argument.ofString arg with
        | .separator => readTop true p rest
        | .long name value => do readTop false (← p.long .top name value) rest
        | .letters cs => do readTop false (← p.letters .top cs) rest
        | .word s =>
            match Command.ofName? s with
            | some .replay => do (← readReplay false {} rest).invocation p.verbose
            | some .help => .error (helpOn rest)
            | none => Progress.misuse (.unknownCommand s)

/-- Read a command line, without the name of the program. -/
def read (args : List String) : Except Stop Invocation := readTop false {} args

end CommandLine

end KeyedSchema
