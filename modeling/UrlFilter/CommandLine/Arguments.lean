import UrlFilter.Query.Parse

/-! Command lines. The arguments are read from left to right: options of the program, the name
of a command, then options and arguments of the command. An option is `--name`, with its value
behind `=` or as the next argument, or a letter after one minus sign, with its value behind the
letter or as the next argument; letters without a value can share a minus sign. A value that is
an argument of its own must not look like an option. Behind `--` no argument is an option. -/
namespace UrlFilter.CommandLine

/-- Why a command line asks for nothing that the program does. -/
inductive UsageError where
  | unknownOption (name : String)
  | repeatedOption (name : String)
  | missingValue (name : String)
  | needlessValue (name : String)
  | invalidValue (name value : String)
  | unknownCommand (name : String)
  | missingCommand
  | unexpectedArgument (argument : String)
  | missingArgument (name : String)
  /-- The first option needs the second one. -/
  | requiredOption (name other : String)
  deriving DecidableEq, Repr

/-- The wording of an error. -/
def UsageError.message : UsageError → String
  | unknownOption name => "unknown option " ++ name
  | repeatedOption name => "option --" ++ name ++ " is given more than once"
  | missingValue name => "option --" ++ name ++ " needs a value"
  | needlessValue name => "option --" ++ name ++ " takes no value"
  | invalidValue name value => "invalid value for --" ++ name ++ ": " ++ Text.quoted value
  | unknownCommand name => "unknown command " ++ name
  | missingCommand => "no command"
  | unexpectedArgument argument => "unexpected argument " ++ argument
  | missingArgument name => "no " ++ name
  | requiredOption name other => "option --" ++ name ++ " needs --" ++ other

/-- An option: its name, perhaps a letter for it, and whether it takes a value. -/
structure OptionSpec where
  name : String
  letter : Option Char := none
  takesValue : Bool := false
  deriving DecidableEq, Repr

/-- Options given, with their values. Those without a value have an empty one. -/
structure Given where
  options : List (String × String) := []
  /-- The arguments that are no options, last first. -/
  arguments : List String := []
  deriving DecidableEq, Repr

namespace Given

/-- The value of an option. -/
def value? (g : Given) (name : String) : Option String :=
  g.options.lookup name

/-- Whether an option is given. -/
def has (g : Given) (name : String) : Bool :=
  (g.value? name).isSome

/-- One more option. -/
def add (g : Given) (name value : String) : Except UsageError Given :=
  if g.has name then .error (.repeatedOption name)
  else .ok { g with options := (name, value) :: g.options }

end Given

/-- Whether an argument is an option, or the mark that ends the options. -/
def looksLikeOption (argument : String) : Bool :=
  match argument.toList with
  | '-' :: _ :: _ => true
  | _ => false

/-- Where the reading of one argument that is an option ends. -/
inductive Step where
  /-- The option, or the letters, are read. -/
  | done (given : Given)
  /-- The value of the option is to be the next argument. -/
  | valueNext (given : Given) (name : String)
  /-- The option asks for something that ends the reading. -/
  | stop (name : String)
  deriving DecidableEq, Repr

/-- What the options of a place are: those that can be given, and the names of those that end
the reading. -/
structure Vocabulary where
  options : List OptionSpec
  stopping : List String := ["help"]
  deriving DecidableEq, Repr

namespace Vocabulary

/-- Takes note of an option without a value. -/
def flag (v : Vocabulary) (given : Given) (name : String) : Except UsageError Step :=
  if v.stopping.contains name then .ok (.stop name) else (given.add name "").map .done

/-- Reads `--` and the characters behind it. -/
def readLong (v : Vocabulary) (given : Given) (body : List Char) : Except UsageError Step :=
  let name := String.ofList (body.takeWhile (· != '='))
  let value := body.dropWhile (· != '=')
  match v.options.find? (·.name == name) with
  | none => .error (.unknownOption ("--" ++ name))
  | some spec =>
    match spec.takesValue, value with
    | true, _ :: value => (given.add name (String.ofList value)).map .done
    | true, [] => .ok (.valueNext given name)
    | false, _ :: _ => .error (.needlessValue name)
    | false, [] => v.flag given name

/-- Reads the letters behind one minus sign. -/
def readLetters (v : Vocabulary) (given : Given) : List Char → Except UsageError Step
  | [] => .ok (.done given)
  | letter :: rest =>
    match v.options.find? (·.letter == some letter) with
    | none => .error (.unknownOption (String.ofList ['-', letter]))
    | some spec =>
      if spec.takesValue then
        match rest with
        | [] => .ok (.valueNext given spec.name)
        | '=' :: value => (given.add spec.name (String.ofList value)).map .done
        | value => (given.add spec.name (String.ofList value)).map .done
      else
        match v.flag given spec.name with
        | .ok (.done given) => v.readLetters given rest
        | other => other

end Vocabulary

/-- Checks one option as soon as it is read. -/
abbrev Check := String → String → Except UsageError Unit

/-- The end of a reading: the options and arguments given and, if a command name ended it, the
name and what stands behind it; or the option that stopped it. -/
inductive Ending where
  | complete (given : Given)
  | command (given : Given) (name : String) (rest : List String)
  | stopped (name : String)
  deriving DecidableEq, Repr

/-- Checks the values that were not there before. -/
def checkNew (check : Check) (before after : Given) : Except UsageError Unit :=
  (after.options.take (after.options.length - before.options.length)).forM fun o =>
    check o.1 o.2

/-- Reads arguments. With `commands`, the first argument that is no option is the name of a
command and ends the reading. -/
def readArguments (v : Vocabulary) (check : Check) (commands : Bool) (given : Given) :
    List String → Except UsageError Ending
  | [] => .ok (.complete given)
  | argument :: rest =>
    let step : Except UsageError (Option Step) :=
      match argument.toList with
      | '-' :: '-' :: [] => .ok none
      | '-' :: '-' :: body => (v.readLong given body).map some
      | '-' :: letter :: letters => (v.readLetters given (letter :: letters)).map some
      | _ =>
        .ok (some (.done { given with arguments := argument :: given.arguments }))
    match step with
    | .error e => .error e
    | .ok none =>
      match commands, rest with
      | true, argument :: _ => .error (.unexpectedArgument argument)
      | _, _ => .ok (.complete { given with arguments := rest.reverse ++ given.arguments })
    | .ok (some (.stop name)) => .ok (.stopped name)
    | .ok (some (.done next)) =>
      if commands && !looksLikeOption argument then .ok (.command given argument rest)
      else
        match checkNew check given next with
        | .error e => .error e
        | .ok () => readArguments v check commands next rest
    | .ok (some (.valueNext given' name)) =>
      match rest with
      | [] => .error (.missingValue name)
      | value :: rest =>
        if looksLikeOption value then .error (.missingValue name)
        else
          match given'.add name value with
          | .error e => .error e
          | .ok next =>
            match checkNew check given next with
            | .error e => .error e
            | .ok () => readArguments v check commands next rest

/-- The one argument of a command. -/
def oneArgument (name : String) (given : Given) : Except UsageError String :=
  match given.arguments.reverse with
  | [] => .error (.missingArgument name)
  | [argument] => .ok argument
  | _ :: argument :: _ => .error (.unexpectedArgument argument)

/-- What to do with a query. -/
inductive Command where
  /-- Write it as JSON. -/
  | parse (query : String) (raw pretty : Bool)
  /-- Write it as SQL, in parts, or as statements about `table`. -/
  | compile (query schemaPath : String) (raw : Bool) (table defaultSort : Option String)
  deriving DecidableEq, Repr

/-- A command with the options of the program. -/
structure Invocation where
  verbose : Bool
  maxDepth : Nat
  command : Command
  deriving DecidableEq, Repr

/-- What a command line asks for. -/
inductive Request where
  | version
  | help
  | run (i : Invocation)
  deriving DecidableEq, Repr

/-- The environment variables that stand for options that are not given. -/
structure Environment where
  maxDepth : Option String := none
  schema : Option String := none
  deriving DecidableEq, Repr

/-- The options before the command. -/
def programOptions : Vocabulary where
  options := [⟨"verbose", some 'v', false⟩, ⟨"max-depth", none, true⟩,
    ⟨"version", some 'V', false⟩, ⟨"help", some 'h', false⟩]
  stopping := ["version", "help"]

/-- The options of `parse`. -/
def parseOptions : Vocabulary where
  options := [⟨"raw", none, false⟩, ⟨"pretty", none, false⟩, ⟨"help", some 'h', false⟩]

/-- The options of `compile`. -/
def compileOptions : Vocabulary where
  options := [⟨"schema", some 's', true⟩, ⟨"raw", none, false⟩, ⟨"from", none, true⟩,
    ⟨"default-sort", none, true⟩, ⟨"help", some 'h', false⟩]

/-- The nesting that a text asks for. -/
def depth (s : String) : Except UsageError Nat :=
  match Text.count? s with
  | some n => .ok n.toNat
  | none => .error (.invalidValue "max-depth" s)

/-- A depth is a count, and the path of a schema is not empty. -/
def checkOption : Check
  | "max-depth", value => (depth value).map fun _ => ()
  | "schema", "" => .error (.missingValue "schema")
  | _, _ => .ok ()

/-- The command that a name and the arguments behind it denote; `none` is a call for help. -/
def readCommand (env : Environment) (name : String) (rest : List String) :
    Except UsageError (Option Command) :=
  match name with
  | "parse" =>
    match readArguments parseOptions checkOption false {} rest with
    | .error e => .error e
    | .ok (.complete given) =>
      (oneArgument "query" given).map fun query =>
        some (.parse query (given.has "raw") (given.has "pretty"))
    | .ok _ => .ok none
  | "compile" =>
    match readArguments compileOptions checkOption false {} rest with
    | .error e => .error e
    | .ok (.complete given) => do
      let query ← oneArgument "query" given
      let schema ←
        match given.value? "schema" <|> env.schema with
        | some path => (checkOption "schema" path).map fun _ => path
        | none => .error (.missingArgument "schema")
      if given.has "default-sort" && !given.has "from" then
        .error (.requiredOption "default-sort" "from")
      else
        .ok (some (.compile query schema (given.has "raw") (given.value? "from")
          (given.value? "default-sort")))
    | .ok _ => .ok none
  | "help" =>
    match rest with
    | [] | ["parse"] | ["compile"] | ["help"] => .ok none
    | argument :: _ => .error (.unknownCommand argument)
  | _ => .error (.unknownCommand name)

/-- What a command line asks for. -/
def Request.ofArguments (env : Environment) (args : List String) : Except UsageError Request :=
  match readArguments programOptions checkOption true {} args with
  | .error e => .error e
  | .ok (.stopped "version") => .ok .version
  | .ok (.stopped _) => .ok .help
  | .ok (.complete _) => .error .missingCommand
  | .ok (.command given name rest) =>
    match readCommand env name rest with
    | .error e => .error e
    | .ok none => .ok .help
    | .ok (some command) =>
      match given.value? "max-depth" <|> env.maxDepth with
      | some s =>
        (depth s).map fun n => .run ⟨given.has "verbose", n, command⟩
      | none => .ok (.run ⟨given.has "verbose", Query.defaultMaxDepth, command⟩)

end UrlFilter.CommandLine
