import GraphSelect.Query.Filter

/-!
# Settings

How rows are paged, how workers are named, and where the WHERE filter stands. Settings come from a
YAML file, from JSON or from environment variables; whatever is not given has a default. Sizes have
bounds and the name of a worker may not be empty. `Settings.check` reports everything that is wrong
at once.
-/

set_option autoImplicit false

namespace GraphSelect

structure Settings where
  -- How many rows are held ready for the consumer.
  pageSize : Nat := 1000
  -- How many results are asked for at once.
  fetchSize : Nat := 100
  -- How the names of workers start.
  workerPrefix : String := "Data-Insert-Thread"
  -- Where the WHERE filter stands.
  placement : FilterPlacement := .beforeGrouping
deriving DecidableEq

inductive SizeProblem where
  | empty
  | badDigit
  | tooLarge
deriving DecidableEq

def SizeProblem.message : SizeProblem → String
  | .empty => "cannot parse integer from empty string"
  | .badDigit => "invalid digit found in string"
  | .tooLarge => "number too large to fit in target type"

inductive SettingsError where
  | unreadable (reason : String)
  | malformed
  -- A variable should hold a size.
  | size (name value : String) (problem : SizeProblem)
  -- A variable should hold a placement.
  | placement (name value : String)
  -- Values are out of bounds: what is wrong, by the name of the field.
  | invalid (problems : List (String × String))
deriving DecidableEq

/-- What could not be read: a variable, the file or what is in it. -/
def SettingsError.source? : SettingsError → Option String
  | .unreadable _ => some "yaml_file"
  | .malformed => some "yaml_content"
  | .size name _ _ => some name
  | .placement name _ => some name
  | .invalid _ => none

def SettingsError.message : SettingsError → String
  | .unreadable reason => "Parse error for yaml_file: file read failed - " ++ reason
  | .malformed => "Parse error for yaml_content"
  | .size name value problem =>
    "Parse error for " ++ name ++ ": " ++ value ++ " - " ++ problem.message
  | .placement name value =>
    "Parse error for " ++ name ++ ": " ++ value ++ " - " ++ FilterPlacement.invalidMessage value
  | .invalid problems =>
    "Validation error: " ++ "\n".intercalate (problems.map fun p => p.1 ++ ": " ++ p.2)

namespace Settings

def maxSize : Nat :=
  100000

def sizeAllowed (n : Nat) : Bool :=
  1 ≤ n && n ≤ maxSize

/-- Everything that is wrong with the values, by the name of the field. -/
def problems (s : Settings) : List (String × String) :=
  (if sizeAllowed s.pageSize then []
    else [("page_size", "Page size must be between 1 and 100000")]) ++
  (if sizeAllowed s.fetchSize then []
    else [("fetch_batch_size", "Fetch batch size must be between 1 and 100000")]) ++
  (if s.workerPrefix.isEmpty then [("worker_name_prefix", "Worker name prefix cannot be empty")]
    else [])

def check (s : Settings) : Except SettingsError Settings :=
  match s.problems with
  | [] => .ok s
  | problems => .error (.invalid problems)

/-- The settings with another placement where one is given, checked. -/
def withPlacement (s : Settings) (placement : Option FilterPlacement) :
    Except SettingsError Settings :=
  check { s with placement := placement.getD s.placement }

end Settings

end GraphSelect
