import GraphSelect.Command.Arguments
import GraphSelect.Json.Printer
import GraphSelect.Query.Json
import GraphSelect.Schema.Yaml
import GraphSelect.Settings.Document
import GraphSelect.Settings.Environment
import GraphSelect.Sql.Json
import GraphSelect.Traversal.Groovy

/-!
# The command

The command compiles one query: it loads the settings, then the schema, then the query, and prints
the traversal and the output columns. The first thing that fails is reported. Reading files is left
to the caller, so that the command is a function of the files' contents, the environment and the
arguments.
-/

set_option autoImplicit false

namespace GraphSelect.Command

/-- The contents of files by path, or why one cannot be read. -/
abbrev Files := String → Except String String

inductive Failure where
  | usage
  | settings (e : SettingsError)
  | schemaText (e : SchemaError)
  -- The schema at the path contradicts itself.
  | schema (path : String) (e : SchemaError)
  | queryFile (path reason : String)
  | query (path : String)
  | compile (e : CompileError)

def Failure.message : Failure → String
  | .usage => "usage: sqlgremlin --schema PATH --query PATH [--config PATH] " ++
      "[--where-placement before_grouping|after_having] [--format groovy|json]"
  | .settings e => "Configuration error: " ++ e.message
  | .schemaText e => "Error: " ++ e.message
  | .schema path e => "Error: invalid schema " ++ path ++ ": " ++ e.message
  | .queryFile path reason => "Error: failed to read " ++ path ++ ": " ++ reason
  | .query path => "Error: " ++ path ++ " is not a select tree"
  | .compile e => "Error: " ++ e.message

def Failure.code : Failure → UInt32
  | .usage => 2
  | _ => 1

/-- The settings of a request: from its file, or else from the environment. -/
def loadSettings (files : Files) (env : Environment) (r : Request) : Except Failure Settings :=
  let base := match r.config with
    | some path =>
      match files path with
      | .ok text => Settings.parse text
      | .error reason => .error (.unreadable reason)
    | none => Settings.ofEnvironment env
  (base.bind fun s => s.withPlacement r.placement).mapError .settings

def loadSchema (files : Files) (r : Request) : Except Failure Schema := do
  let text ← (files r.schema).mapError fun reason => .schemaText (.unreadable r.schema reason)
  let definition ← (SchemaDefinition.parse text).mapError .schemaText
  definition.resolve.mapError (.schema r.schema)

def loadQuery (files : Files) (r : Request) : Except Failure Sql.Select := do
  let text ← (files r.query).mapError (.queryFile r.query)
  match Sql.Select.parse? text with
  | some s => .ok s
  | none => .error (.query r.query)

/-- A compiled query in a format. -/
def render (q : CompiledQuery) : OutputFormat → String
  | .groovy =>
    q.traversal.groovy ++ "\n\n" ++
      String.join (q.columns.map fun c => c.name ++ "\t" ++ c.type.name ++ "\n")
  | .json => q.toJson.pretty ++ "\n"

def Request.run (files : Files) (env : Environment) (r : Request) : Except Failure String := do
  let settings ← loadSettings files env r
  let schema ← loadSchema files r
  let select ← loadQuery files r
  let compiled ← (compile schema settings.placement select).mapError .compile
  return render compiled r.format

def versionLine : String :=
  "sqlgremlin 0.1.0-dev\n"

/-- The file that may hold more variables. -/
def variableFile : String :=
  ".env"

/-- The environment together with the variables of the file. -/
def fullEnvironment (files : Files) (env : Environment) : Environment :=
  match files variableFile with
  | .ok text => env.withFile text
  | .error _ => env

def run (files : Files) (env : Environment) (args : List String) : Except Failure String :=
  match Invocation.ofArguments? args with
  | none => .error .usage
  | some .version => .ok versionLine
  | some (.compile r) => r.run files (fullEnvironment files env)

/-- The files that the arguments mention. -/
def paths (args : List String) : List String :=
  variableFile :: match Invocation.ofArguments? args with
    | some (.compile r) => r.schema :: r.query :: r.config.toList
    | _ => []

/-- The variables that the command looks at. -/
def variableNames : List String :=
  ["SQLGREMLIN_PAGE_SIZE", "SQLGREMLIN_FETCH_BATCH_SIZE", "SQLGREMLIN_WORKER_PREFIX",
    "SQLGREMLIN_WHERE_PLACEMENT"]

end GraphSelect.Command
