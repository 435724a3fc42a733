import GraphSelect.Query.Filter

/-!
# Command line arguments

The command takes named options only, each at most once. A value follows its option as the next
argument or behind an equals sign; as the next argument it may not look like an option itself. The
schema and the query must be given. Arguments are read from left to right, and asking for the
version ends the reading, so only what stands before it can be wrong.
-/

set_option autoImplicit false

namespace GraphSelect.Command

inductive OutputFormat where
  | groovy
  | json
deriving DecidableEq

def OutputFormat.ofName? (name : String) : Option OutputFormat :=
  if name == "groovy" then some .groovy
  else if name == "json" then some .json
  else none

inductive Flag where
  | schema
  | query
  | config
  | wherePlacement
  | format
deriving DecidableEq

def Flag.ofName? (name : String) : Option Flag :=
  if name == "schema" then some .schema
  else if name == "query" then some .query
  else if name == "config" then some .config
  else if name == "where-placement" then some .wherePlacement
  else if name == "format" then some .format
  else none

structure Given where
  schema : Option String := none
  query : Option String := none
  config : Option String := none
  placement : Option FilterPlacement := none
  format : Option OutputFormat := none

/-- Fills a place that must be empty with a value that must be right. -/
def fill {α : Type} (place value : Option α) : Option (Option α) :=
  match place, value with
  | none, some v => some (some v)
  | _, _ => none

def path? (value : String) : Option String :=
  if value.isEmpty then none else some value

/-- One more option with its value. -/
def Given.add? (g : Given) (flag : Flag) (value : String) : Option Given :=
  match flag with
  | .schema => (fill g.schema (path? value)).map fun v => { g with schema := v }
  | .query => (fill g.query (path? value)).map fun v => { g with query := v }
  | .config => (fill g.config (path? value)).map fun v => { g with config := v }
  | .wherePlacement =>
    (fill g.placement (FilterPlacement.ofText? value)).map fun v => { g with placement := v }
  | .format => (fill g.format (OutputFormat.ofName? value)).map fun v => { g with format := v }

structure Request where
  schema : String
  query : String
  config : Option String
  placement : Option FilterPlacement
  format : OutputFormat

/-- The request, if all that must be given is given. -/
def Given.request? (g : Given) : Option Request := do
  let schema ← g.schema
  let query ← g.query
  return ⟨schema, query, g.config, g.placement, g.format.getD .groovy⟩

inductive Invocation where
  | version
  | compile (request : Request)

/-- An argument by its look. -/
inductive Argument where
  -- Two hyphens alone: no options follow.
  | stop
  -- A named option, perhaps with a value behind an equals sign.
  | long (name : String) (value : Option String)
  -- One hyphen and a letter.
  | short (letter : Char)
  | plain (text : String)
deriving DecidableEq

def Argument.ofText (text : String) : Argument :=
  match text.toList with
  | ['-', '-'] => .stop
  | '-' :: '-' :: rest =>
    let name := rest.takeWhile fun c => c != '='
    let value := match rest.dropWhile fun c => c != '=' with
      | _ :: value => some (String.ofList value)
      | [] => none
    .long (String.ofList name) value
  | '-' :: c :: _ => .short c
  | _ => .plain text

/-- Reads the arguments behind those that have been given. -/
def read? (g : Given) : List String → Option Invocation
  | [] => g.request?.map .compile
  | arg :: rest =>
    match Argument.ofText arg with
    | .stop => if rest.isEmpty then g.request?.map .compile else none
    | .short c => if c == 'V' then some .version else none
    | .plain _ => none
    | .long name (some value) => do
      let flag ← Flag.ofName? name
      read? (← g.add? flag value) rest
    | .long name none =>
      if name == "version" then some .version
      else do
        let flag ← Flag.ofName? name
        match rest with
        | [] => none
        | value :: rest =>
          match Argument.ofText value with
          | .plain value => read? (← g.add? flag value) rest
          | _ => none

/-- What the arguments ask for, if they are in order. -/
def Invocation.ofArguments? (args : List String) : Option Invocation :=
  read? {} args

end GraphSelect.Command
