import UrlFilter.CommandLine.Run

/-! The program: it gathers the arguments, the environment and the schema file, and writes what
`CommandLine.run` says. -/
namespace UrlFilter.CommandLine

/-- Why the system did not read a file. -/
def faultOf : IO.Error → FileFault
  | .noFileOrDirectory _ _ _ => .notFound
  | .inappropriateType _ 20 _ => .notADirectory
  | .inappropriateType _ 21 _ => .isADirectory
  | e => .other (toString e)

/-- The text of a file, or why there is none. -/
def readFile (path : String) : IO (Except FileFault String) := do
  try
    match String.fromUTF8? (← IO.FS.readBinFile path) with
    | some s => return .ok s
    | none => return .error (.other "stream did not contain valid UTF-8")
  catch e => return .error (faultOf e)

/-- An event on a line of the error output. -/
def eventLine (e : Log.Event) : String :=
  let detail : String × Log.Value → String
    | (name, .count n) => " " ++ name ++ "=" ++ toString n
    | (name, .text s) => " " ++ name ++ "=" ++ Text.quoted s
  e.level.name ++ " " ++ e.message ++ String.join (e.details.map detail) ++ "\n"

end UrlFilter.CommandLine

open UrlFilter UrlFilter.CommandLine

/-- Runs the command line. -/
def main (args : List String) : IO UInt32 := do
  let env : Environment := {
    maxDepth := ← IO.getEnv "QUERYP_MAX_DEPTH"
    schema := ← IO.getEnv "QUERYP_SCHEMA" }
  let request := Request.ofArguments env args
  let contents ←
    match request.toOption.bind Request.path? with
    | some path => readFile path
    | none => pure (.error .notFound)
  let read := fun _ => contents
  if let .ok (.run i) := request then
    if i.verbose then
      for e in i.events read do
        if e.level ≠ .trace then (← IO.getStderr).putStr (eventLine e)
  let outcome := run env args read
  (← IO.getStdout).putStr outcome.output
  (← IO.getStderr).putStr outcome.errors
  return UInt32.ofNat outcome.code
