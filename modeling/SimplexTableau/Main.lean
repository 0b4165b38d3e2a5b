import SimplexTableau.CommandLine.Session

/-!
# The program

Reads the arguments and the problem, carries out the command and writes what it says: reports to
the standard output, events and failures to the standard error.
-/

namespace SimplexTableau.CommandLine

/-- The word for a level in front of an event. -/
def levelWord : Level → String
  | .info => "INFO"
  | .debug => "DEBUG"
  | .trace => "TRACE"

/-- A field of an event. -/
def fieldText : String × FieldValue → String
  | (name, .count n) => s!" {name}={n}"
  | (name, .name text) => s!" {name}={text}"
  | (name, .amount x) => " " ++ name ++ "=" ++ Decimal.display x

/-- An event on a line of its own. -/
def eventLine (event : Event Float) : String :=
  levelWord event.level ++ " " ++ event.message ++ String.join (event.fields.map fieldText)

/-- Why a file could not be read. -/
def readReason : IO.Error → String
  | .noFileOrDirectory _ _ _ => "No such file or directory (os error 2)"
  | .inappropriateType _ _ _ => "Is a directory (os error 21)"
  | error => toString error

/-- The text at a path, `-` being the standard input. -/
def readPath (path : String) : IO (Except String String) := do
  try
    let bytes ← if path = "-" then (← IO.getStdin).readBinToEnd else IO.FS.readBinFile path
    return decodeFile bytes
  catch error =>
    return .error (readReason error)

/-- Carries out what the arguments say. -/
def runInvocation (i : Invocation) : IO UInt32 := do
  let content ←
    match i.command.source.file with
    | some path => readPath path
    | none => pure (.error "")
  let outcome := i.command.run fun _ => content
  for event in outcome.events.filter i.tells do
    IO.eprintln (eventLine event)
  IO.print outcome.stdout
  if let some message := outcome.failure then
    IO.eprintln ("Error: " ++ message)
  return outcome.exitCode.toUInt32

/-- Carries out the command of the arguments, or says why they are refused. -/
def runArguments (args : List String) : IO UInt32 := do
  match parse args with
  | .ok invocation => runInvocation invocation
  | .error usage =>
    IO.eprintln (usage.message?.getD "error: expected solve or check, options and a file")
    return 2

end SimplexTableau.CommandLine

/-- The program. -/
def main (args : List String) : IO UInt32 := SimplexTableau.CommandLine.runArguments args
