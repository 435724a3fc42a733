import GraphSelect.Json.Basic
import GraphSelect.Settings.Basic
import GraphSelect.Yaml.Reader

/-!
# Settings in YAML and JSON

A file of settings is a YAML mapping with any of the four fields. The same record can be read from
JSON, where sizes are integers and all else is text.
-/

set_option autoImplicit false

namespace GraphSelect

/-- The value of a field read with one reader, or the default where the field is left out. -/
def readOr {α β : Type} (fields : List (String × α)) (name : String) (read : α → Option β)
    (default : β) : Option β :=
  match fields.lookup name with
  | some v => read v
  | none => some default

def FilterPlacement.ofJson? (v : Json) : Option FilterPlacement :=
  v.bareVariant?.bind ofName?

/-- The placement in a record of its own, `before_grouping` where it is left out. -/
def FilterPlacement.ofRecord? (v : Json) : Option FilterPlacement := do
  let fields ← v.record? ["where_placement"]
  readOr fields "where_placement" ofJson? .beforeGrouping

namespace Settings

def fieldNames : List String :=
  ["page_size", "fetch_batch_size", "worker_name_prefix", "where_placement"]

def ofYaml? (v : Yaml) : Option Settings := do
  let defaults : Settings := {}
  let fields ← v.record? fieldNames
  let pageSize ← readOr fields "page_size" Yaml.size? defaults.pageSize
  let fetchSize ← readOr fields "fetch_batch_size" Yaml.size? defaults.fetchSize
  let workerPrefix ← readOr fields "worker_name_prefix" Yaml.text? defaults.workerPrefix
  let placement ← readOr fields "where_placement"
    (fun v => v.text?.bind FilterPlacement.ofName?) defaults.placement
  return ⟨pageSize, fetchSize, workerPrefix, placement⟩

/-- The settings that a YAML text holds, checked. -/
def parse (text : String) : Except SettingsError Settings :=
  match (Yaml.parse? text).bind ofYaml? with
  | some s => s.check
  | none => .error .malformed

def ofJson? (v : Json) : Option Settings := do
  let defaults : Settings := {}
  let fields ← v.record? fieldNames
  let pageSize ← readOr fields "page_size" Json.size? defaults.pageSize
  let fetchSize ← readOr fields "fetch_batch_size" Json.size? defaults.fetchSize
  let workerPrefix ← readOr fields "worker_name_prefix" Json.str? defaults.workerPrefix
  let placement ← readOr fields "where_placement" FilterPlacement.ofJson? defaults.placement
  return ⟨pageSize, fetchSize, workerPrefix, placement⟩

/-- The part that the compiler looks at. -/
def compilerJson (s : Settings) : Json :=
  .obj [("where_placement", .str s.placement.name)]

/-- The fields that streams look at. -/
def streamFields (s : Settings) : List (String × Json) :=
  [("page_size", .int s.pageSize), ("fetch_batch_size", .int s.fetchSize),
    ("worker_name_prefix", .str s.workerPrefix)]

/-- The part that streams look at. -/
def streamJson (s : Settings) : Json :=
  .obj s.streamFields

def toJson (s : Settings) : Json :=
  .obj (s.streamFields ++ [("where_placement", .str s.placement.name)])

end Settings

end GraphSelect
