import UrlFilter.CommandLine.Arguments
import UrlFilter.Directory
import UrlFilter.Log
import UrlFilter.Query.Json
import UrlFilter.Schema.Json
import UrlFilter.Sql.Json

/-! Commands and their outcomes. A command either writes one text or fails for one reason; the
schema is read before the query. -/
namespace UrlFilter.CommandLine

/-- Why a command fails. -/
inductive Failure where
  | unreadable (path : String) (fault : FileFault)
  | notASchema (path : String)
  | query (e : QueryError)
  | lowering (e : Sql.LoweringError)
  deriving DecidableEq, Repr

namespace Failure

/-- The wording of a failure. -/
def message : Failure → String
  | unreadable path fault => "could not read schema file '" ++ path ++ "': " ++ fault.message
  | notASchema path => "invalid schema file '" ++ path ++ "'"
  | query e => e.message
  | lowering e => e.message

/-- What is written to the error output. A file that cannot be read has its cause below. -/
def report (f : Failure) : String :=
  match f with
  | unreadable _ fault =>
    "Error: " ++ f.message ++ "\n\nCaused by:\n    " ++ fault.message ++ "\n"
  | notASchema _ => "Error: " ++ f.message
  | _ => "Error: " ++ f.message ++ "\n"

end Failure

/-- The schema in a file, of which the text or the reason that there is none is given. -/
def schemaOf (path : String) (contents : Except FileFault String) : Except Failure Schema :=
  match contents with
  | .error fault => .error (.unreadable path fault)
  | .ok s =>
    match Json.decodeText (Schema.ofJson Json.maxNesting) s with
    | .error _ => .error (.notASchema path)
    | .ok schema => .ok schema

/-- The query that a text says, percent-encoded if `raw`. -/
def queryOf (s : String) (raw : Bool) (maxDepth : Nat) : Except Failure Query :=
  match if raw then Query.parseRaw s maxDepth else Query.parse s maxDepth with
  | .error e => .error (.query e)
  | .ok q => .ok q

/-- A query as JSON. -/
def parseText (s : String) (raw pretty : Bool) (maxDepth : Nat) : Except Failure String :=
  (queryOf s raw maxDepth).map fun q =>
    if pretty then q.toJson.pretty else q.toJson.compact

/-- A query as SQL: its parts, or the statements about a table if one is named. -/
def compileJson (s : String) (raw : Bool) (maxDepth : Nat) (schema : Schema)
    (table defaultSort : Option String) : Except Failure Json :=
  match queryOf s raw maxDepth with
  | .error e => .error e
  | .ok query =>
    let lowered :=
      match table with
      | none => (Sql.Fragment.ofQuery schema query).map Sql.Fragment.toJson
      | some table =>
        let defaultSort := SortKey.ofList (defaultSort.getD "")
        (Sql.Listing.statements schema { table, query, defaultSort }).map Sql.Statements.toJson
    match lowered with
    | .error e => .error (.lowering e)
    | .ok v => .ok v

/-- What a run of the program leaves behind. -/
structure Outcome where
  code : Nat
  output : String := ""
  errors : String := ""
  deriving DecidableEq, Repr

/-- The text that answers `--version`. -/
def versionText : String := "queryp 0.1.0\n"

/-- The text that answers `--help`. -/
def helpText : String :=
  "Usage: queryp [OPTIONS] COMMAND\n\n" ++
  "Commands:\n" ++
  "  parse QUERY [--raw] [--pretty]\n" ++
  "  compile QUERY --schema FILE [--raw] [--from TABLE [--default-sort LIST]]\n\n" ++
  "Options:\n" ++
  "  -v, --verbose\n" ++
  "      --max-depth N\n" ++
  "  -h, --help\n" ++
  "  -V, --version\n"

/-- The outcome of a command that wrote a text or failed. -/
def Outcome.ofResult : Except Failure String → Outcome
  | .ok output => { code := 0, output := output ++ "\n" }
  | .error e => { code := 1, errors := e.report }

/-- The text that a command writes, with `read` for the files. -/
def Invocation.result (i : Invocation) (read : String → Except FileFault String) :
    Except Failure String :=
  match i.command with
  | .parse query raw pretty => parseText query raw pretty i.maxDepth
  | .compile query path raw table defaultSort =>
    match schemaOf path (read path) with
    | .error e => .error e
    | .ok schema =>
      (compileJson query raw i.maxDepth schema table defaultSort).map Json.pretty

/-- The file that a request needs. -/
def Request.path? : Request → Option String
  | .run { command := .compile _ path _ _ _, .. } => some path
  | _ => none

/-- The outcome of a command line, with `read` for the files. -/
def run (env : Environment) (args : List String) (read : String → Except FileFault String) :
    Outcome :=
  match Request.ofArguments env args with
  | .error e => { code := 2, errors := "error: " ++ e.message ++ "\n" }
  | .ok .version => { code := 0, output := versionText }
  | .ok .help => { code := 0, output := helpText }
  | .ok (.run i) => .ofResult (i.result read)

/-- The query text as the parser gets it, if there is one. -/
def Invocation.text? (i : Invocation) : Option String :=
  match i.command with
  | .parse query true _ | .compile query _ true _ _ => (Text.Percent.decode query).toOption
  | .parse query false _ | .compile query _ false _ _ => some query

/-- The events of a command, as far as it comes. -/
def Invocation.events (i : Invocation) (read : String → Except FileFault String) :
    List Log.Event :=
  let parsing := (i.text?.map (Log.ofParse · i.maxDepth)).getD []
  match i.command with
  | .parse _ _ _ => parsing
  | .compile query path raw table defaultSort =>
    match schemaOf path (read path) with
    | .error _ => []
    | .ok schema =>
      .loadedSchema path schema.filterFields.size schema.sortFields.size :: parsing ++
        match queryOf query raw i.maxDepth with
        | .error _ => []
        | .ok query =>
          let (lowering, lowered) :=
            match table with
            | none =>
              (Log.ofFragment schema query, (Sql.Fragment.ofQuery schema query).isOk)
            | some table =>
              let l : Sql.Listing :=
                { table, query, defaultSort := SortKey.ofList (defaultSort.getD "") }
              (Log.ofListing schema l, (l.statements schema).isOk)
          lowering ++ if lowered then [.finished] else []

end UrlFilter.CommandLine
